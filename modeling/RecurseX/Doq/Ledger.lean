import Mathlib.Logic.Relation
import RecurseX.Doq.Drive
import RecurseX.Doq.Handshake

/-!
# What receiving can do to the connection

The part of the connection that the handshake, loss recovery and the query
streams rest on, and the few ways in which receiving changes it. Every property
of runs is proved for these steps, and the code is shown to take no others.
-/

namespace RecurseX.Doq

open Library Wire Stateful QuicConnection

/-- The part of the connection that properties of runs are about. -/
@[ext]
structure Ledger (PacketKey RootStore : Type) where
  log : List (Event PacketKey)
  sent : List SentPacket
  nextPn : PerSpace Nat
  initialWrite : PacketKey
  hsWrite : Option PacketKey
  appWrite : Option PacketKey
  hsRead : Option PacketKey
  retryScid : Option Bytes
  handshakeConfirmed : Bool
  tls : ClientHandshake RootStore
  streamId : Nat
  openedBidi : Nat
  queryTx : Option QuerySend
  queryRx : QueryRecv

variable {PacketKey RootStore : Type}

/-- The ledger of a connection. -/
def QuicConnection.ledger (self : QuicConnection PacketKey RootStore) :
    Ledger PacketKey RootStore where
  log := self.log
  sent := self.sent
  nextPn := self.nextPn
  initialWrite := self.initialWrite
  hsWrite := self.hsWrite
  appWrite := self.appWrite
  hsRead := self.hsRead
  retryScid := self.retryScid
  handshakeConfirmed := self.handshakeConfirmed
  tls := self.tls
  streamId := self.streamId
  openedBidi := self.openedBidi
  queryTx := self.queryTx
  queryRx := self.queryRx

/-- The frames that carry query data. -/
def Frame.isStream : Frame → Bool
  | .stream .. => true
  | _ => false

/-- The frames that must reach the server: handshake data, query data and windows. -/
def Frame.isTracked : Frame → Bool
  | .crypto .. | .stream .. | .maxData _ | .maxStreamData .. | .maxStreams .. => true
  | _ => false

/-- Whether a frame is data of the query stream. -/
def Codec.answers (codec : Codec PacketKey) (streamId : Nat) : Frame → Bool
  | .stream other .. => other == streamId && codec.streamType other == codec.clientBidi &&
      codec.streamType other != codec.serverUni
  | _ => false

namespace Ledger

/-- Note what passed. -/
def note (ledger : Ledger PacketKey RootStore) (event : Event PacketKey) :
    Ledger PacketKey RootStore :=
  { ledger with log := ledger.log ++ [event] }

/-- The key packets of a space are sealed with. -/
def writeKey (ledger : Ledger PacketKey RootStore) : Space → Option PacketKey
  | .initial => some ledger.initialWrite
  | .handshake => ledger.hsWrite
  | .application => ledger.appWrite

/-- Frames were handed to be sent, and a packet went out with them. -/
def send (ledger : Ledger PacketKey RootStore) (space : Space) (key : PacketKey)
    (frames : List Frame) (now : Nat) : Ledger PacketKey RootStore :=
  let pn := ledger.nextPn.atSpace space
  { ledger with
    log := ledger.log ++ [.handed space frames, .sent space key pn frames]
    nextPn := ledger.nextPn.set space ((pn + 1) % 2 ^ 64)
    sent := if frames.isEmpty then ledger.sent else ledger.sent ++ [⟨space, pn, now, frames⟩] }

/-- Packets a frame acknowledges are no longer waited for. -/
def acked (ledger : Ledger PacketKey RootStore) (space : Space) (largestAcked : Nat)
    (ranges : List (Nat × Nat)) : Ledger PacketKey RootStore :=
  { ledger with sent := ledger.sent.filter fun packet =>
      !(packet.space == space && isAcked largestAcked ranges packet.pn) }

/-- One thing that receiving does. -/
inductive Step (codec : Codec PacketKey) (crypto : Crypto RootStore) :
    Ledger PacketKey RootStore → Ledger PacketKey RootStore → Prop where
  /-- A frame is taken that neither acknowledges nor answers. -/
  | received {ledger} (space : Space) (frame : Frame)
      (silent : ∀ largest delay ranges, frame ≠ .ack largest delay ranges)
      (foreign : codec.answers ledger.streamId frame = false) :
      Step codec crypto ledger (ledger.note (.received space frame))
  | acked {ledger} (space : Space) (largest delay : Nat) (ranges : List (Nat × Nat)) :
      Step codec crypto ledger
        ((ledger.note (.received space (.ack largest delay ranges))).acked space largest ranges)
  | answered {ledger} (space : Space) {streamId : Nat} {offset length : Option Nat}
      {data buf : Bytes} {fin : Bool}
      (answers : codec.answers ledger.streamId (.stream streamId offset data length fin) = true)
      (placed : placeResponse ledger.queryRx.buf (offset.getD 0) data = some buf) :
      Step codec crypto ledger
        { ledger.note (.received space (.stream streamId offset data length fin)) with
          queryRx := ⟨buf, ledger.queryRx.fin || fin⟩ }
  | sent {ledger} (space : Space) (key : PacketKey) (frames : List Frame) (now : Nat)
      (keyed : ledger.writeKey space = some key)
      (plain : ∀ frame ∈ frames, frame.isStream = false) :
      Step codec crypto ledger (ledger.send space key frames now)
  /-- Frames whose loss does not matter were handed in vain. -/
  | dropped {ledger} (space : Space) (frames : List Frame)
      (untracked : ∀ frame ∈ frames, frame.isTracked = false) :
      Step codec crypto ledger (ledger.note (.handed space frames))
  | accepted {ledger} (space : Space) (msg : Bytes) {result : Option Completed}
      {tls : ClientHandshake RootStore} (level : space ≠ .application)
      (readable : space = .handshake → ledger.hsRead.isSome = true)
      (fed : ClientHandshake.feed crypto codec.varint msg ledger.tls = (.ok result, tls)) :
      Step codec crypto ledger
        { (ledger.note (.completed space msg)).note (.accepted space msg) with tls := tls }
  | keyed {ledger} (hsWrite appWrite : PacketKey) :
      Step codec crypto ledger
        { ledger with hsWrite := some hsWrite, appWrite := some appWrite }
  | confirmed {ledger} : Step codec crypto ledger { ledger with handshakeConfirmed := true }
  | readable {ledger} (hsRead : PacketKey) (derived : ledger.tls.sHs.isSome = true) :
      Step codec crypto ledger { ledger with hsRead := some hsRead }
  | retried {ledger} (scid : Bytes) (key : PacketKey) (cfg : ClientConfig RootStore)
      (entropy : Entropy) (first : ledger.retryScid = none)
      (early : ledger.handshakeConfirmed = false) :
      Step codec crypto ledger
        { ledger.note (.retried ledger.initialWrite key) with
          retryScid := some scid
          initialWrite := key
          nextPn := ledger.nextPn.set .initial 0
          sent := ledger.sent.filter fun packet => packet.space != .initial
          tls := ClientHandshake.greeted codec.varint cfg entropy }

/-- How receiving can end early. -/
inductive Fault (codec : Codec PacketKey) (crypto : Crypto RootStore) :
    Ledger PacketKey RootStore → Ledger PacketKey RootStore → Prop where
  | stopped {ledger} : Fault codec crypto ledger ledger
  | unsent {ledger} (space : Space) (frames : List Frame) :
      Fault codec crypto ledger (ledger.note (.handed space frames))
  | unplaced {ledger} (space : Space) (frame : Frame) :
      Fault codec crypto ledger (ledger.note (.received space frame))
  | refused {ledger} (space : Space) (msg : Bytes) {error : Error}
      {tls : ClientHandshake RootStore}
      (fed : ClientHandshake.feed crypto codec.varint msg ledger.tls = (.error error, tls)) :
      Fault codec crypto ledger { ledger.note (.completed space msg) with tls := tls }
  /-- The keys after a Retry could not be derived. -/
  | unkeyed {ledger} (scid : Bytes) (key : PacketKey) :
      Fault codec crypto ledger { ledger with retryScid := some scid, initialWrite := key }

/-- Any number of steps. -/
def Steps (codec : Codec PacketKey) (crypto : Crypto RootStore) :
    Ledger PacketKey RootStore → Ledger PacketKey RootStore → Prop :=
  Relation.ReflTransGen (Step codec crypto)

/-- The connection goes through steps. -/
def Follows (codec : Codec PacketKey) (crypto : Crypto RootStore)
    (before after : QuicConnection PacketKey RootStore) : Prop :=
  Steps codec crypto before.ledger after.ledger

/-- The connection goes through steps and then stops at a fault. -/
def Fails (codec : Codec PacketKey) (crypto : Crypto RootStore)
    (before after : QuicConnection PacketKey RootStore) : Prop :=
  ∃ middle, Steps codec crypto before.ledger middle ∧ Fault codec crypto middle after.ledger

variable {codec : Codec PacketKey} {crypto : Crypto RootStore}

theorem follows_sequential :
    Sequential (@Follows PacketKey RootStore codec crypto) (Fails codec crypto) where
  refl _ := .refl
  trans first second := first.trans second
  stop conn := ⟨conn.ledger, .refl, .stopped⟩
  fails := by
    rintro first middle last moved ⟨stopped, steps, fault⟩
    exact ⟨stopped, moved.trans steps, fault⟩

/-- What a computation does is steps, and a fault when it fails. -/
abbrev Goes (codec : Codec PacketKey) (crypto : Crypto RootStore) {α : Type}
    (act : Act PacketKey RootStore α) (conn : QuicConnection PacketKey RootStore) : Prop :=
  Moves (Follows codec crypto) (Fails codec crypto) act conn

variable {conn : QuicConnection PacketKey RootStore} {env : Env}

theorem Follows.of_eq {before after : QuicConnection PacketKey RootStore}
    (same : after.ledger = before.ledger) : Follows codec crypto before after := by
  rw [Follows, same]
  exact .refl

theorem Follows.of_step {before after : QuicConnection PacketKey RootStore}
    (step : Step codec crypto before.ledger after.ledger) : Follows codec crypto before after :=
  .single step

/-! ## Sending -/

/-- The connection after frames were handed to be sent. -/
def handing (conn : QuicConnection PacketKey RootStore) (space : Space) (frames : List Frame) :
    QuicConnection PacketKey RootStore :=
  { conn with log := conn.log ++ [.handed space frames] }

theorem writeKey_eq_ok {space : Space} {key : PacketKey} :
    conn.writeKey space = .ok key ↔ conn.ledger.writeKey space = some key := by
  cases space with
  | initial => simp [QuicConnection.writeKey, writeKey, QuicConnection.ledger]
  | handshake => exact okOr_eq_ok
  | application => exact okOr_eq_ok

/-- A packet goes out, or the frames were only handed. -/
theorem sendPacket_cases {space : Space} {frames : List Frame} {padInitial : Bool}
    {outcome : Except Error Unit} {after : QuicConnection PacketKey RootStore}
    (ran : sendPacket codec env space frames padInitial conn = (outcome, after)) :
    (∃ key, outcome = .ok () ∧ conn.ledger.writeKey space = some key ∧
        after = (handing conn space frames).afterSend space key frames env.now) ∨
      ∃ error, outcome = .error error ∧ after = handing conn space frames := by
  unfold sendPacket QuicConnection.note at ran
  rw [update_bind_run, read_bind_run] at ran
  cases outcome with
  | ok _ =>
      obtain ⟨key, keyed, ran⟩ := lift_bind_eq_ok_iff.mp ran
      obtain ⟨wire, -, ran⟩ := lift_bind_eq_ok_iff.mp ran
      obtain ⟨_, -, ran⟩ := lift_bind_eq_ok_iff.mp ran
      cases ran
      exact .inl ⟨key, rfl, writeKey_eq_ok.mp keyed, rfl⟩
  | error error =>
      rcases lift_bind_eq_error_iff.mp ran with ⟨-, same⟩ | ⟨key, -, ran⟩
      · exact .inr ⟨error, rfl, same⟩
      rcases lift_bind_eq_error_iff.mp ran with ⟨-, same⟩ | ⟨wire, -, ran⟩
      · exact .inr ⟨error, rfl, same⟩
      rcases lift_bind_eq_error_iff.mp ran with ⟨-, same⟩ | ⟨_, -, ran⟩
      · exact .inr ⟨error, rfl, same⟩
      · cases ran

theorem afterSend_ledger {space : Space} {key : PacketKey} {frames : List Frame} {now : Nat} :
    ((handing conn space frames).afterSend space key frames now).ledger =
      conn.ledger.send space key frames now := by
  simp [handing, afterSend, QuicConnection.ledger, send]

theorem handing_ledger {space : Space} {frames : List Frame} :
    (handing conn space frames).ledger = conn.ledger.note (.handed space frames) := rfl

theorem sendPacket_goes {space : Space} {frames : List Frame} {padInitial : Bool}
    (plain : ∀ frame ∈ frames, frame.isStream = false) :
    Goes codec crypto (sendPacket codec env space frames padInitial) conn where
  ok := by
    intro _ after ran
    obtain ⟨key, -, keyed, rfl⟩ | ⟨error, failed, -⟩ := sendPacket_cases ran
    · refine .of_step ?_
      rw [afterSend_ledger]
      exact .sent space key frames env.now keyed plain
    · cases failed
  bad := by
    intro error after ran
    obtain ⟨key, done, -⟩ | ⟨error, -, rfl⟩ := sendPacket_cases ran
    · cases done
    · exact ⟨conn.ledger, .refl, handing_ledger ▸ .unsent space frames⟩

/-- Sending that may fail without harm. -/
theorem attempt_sendPacket_goes {space : Space} {frame : Frame} {padInitial : Bool}
    (plain : frame.isStream = false) (untracked : frame.isTracked = false) :
    Goes codec crypto (attempt (sendPacket codec env space [frame] padInitial)) conn where
  ok := by
    intro _ after ran
    rcases inner : sendPacket codec env space [frame] padInitial conn with ⟨outcome, last⟩
    rw [attempt_run, inner] at ran
    cases ran
    obtain ⟨key, -, keyed, rfl⟩ | ⟨error, -, rfl⟩ := sendPacket_cases inner
    · refine .of_step ?_
      rw [afterSend_ledger]
      exact .sent space key [frame] env.now keyed (by simpa using plain)
    · exact .of_step (.dropped space [frame] (by simpa using untracked))
  bad := by
    intro error after ran
    cases ran

theorem replenish_goes {used limit : Nat} {announce : Nat → Frame}
    {put : Nat → QuicConnection PacketKey RootStore → QuicConnection PacketKey RootStore}
    (plain : ∀ limit, (announce limit).isStream = false)
    (unseen : ∀ limit (conn : QuicConnection PacketKey RootStore),
      (put limit conn).ledger = conn.ledger) :
    Goes codec crypto (replenish codec env used limit announce put) conn := by
  have rules := @follows_sequential _ _ codec crypto
  unfold replenish
  split_ifs
  · refine rules.bind (sendPacket_goes (by simpa using plain _)) fun _ middle _ _ => ?_
    exact Sequential.update (.of_eq (unseen _ _))
  · exact rules.pure

theorem buildAckFrame_plain (pns : List Nat) :
    (buildAckFrame pns).isStream = false ∧ (buildAckFrame pns).isTracked = false := by
  dsimp only [buildAckFrame]
  split <;> exact ⟨rfl, rfl⟩

theorem flushAcks_goes : Goes codec crypto (flushAcks codec env) conn := by
  have rules := @follows_sequential _ _ codec crypto
  have one : ∀ space (conn : QuicConnection PacketKey RootStore),
      Goes codec crypto (flushAcksOf codec env space) conn := by
    intro space conn
    refine Sequential.read_bind ?_
    split_ifs
    · exact rules.pure
    · exact Sequential.update (.of_eq rfl)
    · refine rules.update_bind (.of_eq rfl) ?_
      obtain ⟨plain, untracked⟩ := buildAckFrame_plain (conn.pendingAcks.atSpace space)
      exact attempt_sendPacket_goes plain untracked
  exact rules.bind (one .initial conn) fun _ _ _ _ =>
    rules.bind (one .handshake _) fun _ _ _ _ => one .application _

/-! ## Handshake data -/

theorem validateServerTransportParams_goes :
    Goes codec crypto validateServerTransportParams conn := by
  have rules := @follows_sequential _ _ codec crypto
  refine Sequential.read_bind (rules.lift_bind fun params _ => ?_)
  refine rules.lift_bind fun _ _ => rules.lift_bind fun _ _ => rules.lift_bind fun _ _ => ?_
  refine rules.update_bind (.of_eq rfl) (Sequential.read_bind ?_)
  exact rules.lift

theorem completeHandshake_goes {completed : Completed} :
    Goes codec crypto (completeHandshake codec env completed) conn := by
  have rules := @follows_sequential _ _ codec crypto
  refine Sequential.read_bind (rules.lift_bind fun hsWrite _ => rules.lift_bind fun appWrite _ =>
    rules.lift_bind fun appRead _ => rules.update_bind (.of_step (.keyed hsWrite appWrite)) ?_)
  refine rules.bind validateServerTransportParams_goes fun _ middle _ _ => Sequential.read_bind ?_
  refine rules.bind (sendPacket_goes (by simp [Frame.isStream])) fun _ last _ _ => ?_
  exact Sequential.update (.of_step .confirmed)

theorem deriveHsRead_goes : Goes codec crypto (deriveHsRead codec) conn := by
  have rules := @follows_sequential _ _ codec crypto
  refine Sequential.read_bind ?_
  cases unread : conn.hsRead with
  | some key => exact rules.pure
  | none =>
      cases derived : conn.tls.sHs with
      | none => exact rules.pure
      | some sHs =>
          refine rules.lift_bind fun suite _ => rules.lift_bind fun hsRead _ => ?_
          refine Sequential.update (.of_step (.readable hsRead ?_))
          simp [QuicConnection.ledger, derived]

/-- A space whose handshake data can be read. -/
def Readable (space : Space) (conn : QuicConnection PacketKey RootStore) : Prop :=
  space ≠ .application ∧ (space = .handshake → conn.hsRead.isSome = true)

theorem afterMessage_goes {result : Option Completed} :
    Goes codec crypto (afterMessage codec env result) conn := by
  cases result with
  | some completed => exact completeHandshake_goes
  | none => exact deriveHsRead_goes

/-- The connection after a message was accepted. -/
def accepting (conn : QuicConnection PacketKey RootStore) (space : Space) (msg : Bytes)
    (tls : ClientHandshake RootStore) : QuicConnection PacketKey RootStore :=
  { conn with log := conn.log ++ [.completed space msg] ++ [.accepted space msg], tls := tls }

theorem feedMessage_goes {space : Space} {msg : Bytes} (readable : Readable space conn) :
    Goes codec crypto (feedMessage codec env crypto space msg) conn := by
  have rules := @follows_sequential _ _ codec crypto
  rcases fed : ClientHandshake.feed crypto codec.varint msg conn.tls with ⟨outcome, tls⟩
  cases outcome with
  | ok result =>
      -- The note, the feeding and the second note are one step.
      have moved : Follows codec crypto conn (accepting conn space msg tls) :=
        .of_step (.accepted space msg readable.1 readable.2 fed)
      have run : feedMessage codec env crypto space msg conn =
          afterMessage codec env result (accepting conn space msg tls) := by
        unfold feedMessage
        rw [QuicConnection.note, update_bind_run,
          bind_of_ok (show _ = (Except.ok result, _) by rw [within_run, fed])]
        rfl
      constructor
      · intro value after ran
        rw [run] at ran
        exact rules.trans moved (afterMessage_goes.ok value after ran)
      · intro error after ran
        rw [run] at ran
        exact rules.fails moved (afterMessage_goes.bad error after ran)
  | error error =>
      have run : feedMessage codec env crypto space msg conn = (.error error,
          { conn with log := conn.log ++ [.completed space msg], tls := tls }) := by
        unfold feedMessage
        rw [QuicConnection.note, update_bind_run,
          bind_of_error (show _ = (Except.error error, _) by rw [within_run, fed])]
      constructor
      · intro value after ran
        rw [run] at ran
        cases ran
      · intro _ after ran
        rw [run] at ran
        cases ran
        exact ⟨conn.ledger, .refl, .refused space msg fed⟩

/-- The key of the server's flight stays. -/
theorem Steps.hsRead_isSome {before after : Ledger PacketKey RootStore}
    (steps : Steps codec crypto before after) (some : before.hsRead.isSome = true) :
    after.hsRead.isSome = true := by
  induction steps with
  | refl => exact some
  | tail _ step inductionHypothesis =>
      cases step <;> first | exact inductionHypothesis | rfl

theorem feedMessages_goes {space : Space} {fuel : Nat} (readable : Readable space conn) :
    Goes codec crypto (feedMessages codec env crypto space fuel) conn := by
  have rules := @follows_sequential _ _ codec crypto
  induction fuel generalizing conn with
  | zero => exact rules.fail
  | succ fuel inductionHypothesis =>
      refine Sequential.read_bind ?_
      cases popped : (conn.cryptoRx.atSpace space).popMessage with
      | none => exact rules.pure
      | some both =>
          obtain ⟨msg, rx⟩ := both
          refine rules.update_bind (.of_eq rfl) (rules.bind (feedMessage_goes readable) ?_)
          intro _ middle _ moved
          exact inductionHypothesis ⟨readable.1, fun flight => moved.hsRead_isSome (readable.2 flight)⟩

theorem onCrypto_goes {space : Space} {offset : Nat} {data : Bytes}
    (readable : space = .handshake → conn.hsRead.isSome = true) :
    Goes codec crypto (onCrypto codec env crypto space offset data) conn := by
  have rules := @follows_sequential _ _ codec crypto
  unfold onCrypto
  split_ifs with application
  · exact rules.pure
  · refine Sequential.read_bind (rules.lift_bind fun rx _ => rules.update_bind (.of_eq rfl) ?_)
    exact feedMessages_goes ⟨application, readable⟩

/-! ## Stream data -/

theorem maybeReplenishWindows_goes :
    Goes codec crypto (maybeReplenishWindows codec env) conn := by
  have rules := @follows_sequential _ _ codec crypto
  refine Sequential.read_bind (rules.bind (replenish_goes (fun _ => rfl) fun _ _ => rfl) ?_)
  intro _ middle _ _
  exact Sequential.read_bind (replenish_goes (fun _ => rfl) fun _ _ => rfl)

theorem drainUni_goes {streamId offset : Nat} {data : Bytes} :
    Goes codec crypto (drainUni codec env streamId offset data) conn := by
  have rules := @follows_sequential _ _ codec crypto
  refine rules.update_bind (.of_eq rfl) (Sequential.read_bind ?_)
  refine rules.bind (replenish_goes (fun _ => rfl) fun _ _ => rfl) fun _ middle _ _ => ?_
  exact Sequential.read_bind (replenish_goes (fun _ => rfl) fun _ _ => rfl)

theorem shut_goes {α : Type} {error : Error} :
    Goes codec crypto (shut error : Act PacketKey RootStore α) conn := by
  have rules := @follows_sequential _ _ codec crypto
  exact rules.update_bind (.of_eq rfl) rules.fail

/-- The connection after a frame was noted. -/
def noting (conn : QuicConnection PacketKey RootStore) (space : Space) (frame : Frame) :
    QuicConnection PacketKey RootStore :=
  { conn with log := conn.log ++ [.received space frame] }

theorem answers_iff {current streamId : Nat} {offset length : Option Nat} {data : Bytes}
    {fin : Bool} :
    codec.answers current (.stream streamId offset data length fin) = true ↔
      streamId = current ∧ codec.streamType streamId = codec.clientBidi ∧
        codec.streamType streamId ≠ codec.serverUni := by
  simp [Codec.answers, and_assoc]

/-- Data of another stream. -/
theorem onStream_foreign_goes {streamId : Nat} {offset length : Option Nat} {data : Bytes}
    {fin : Bool}
    (foreign : codec.answers conn.streamId (.stream streamId offset data length fin) = false) :
    Goes codec crypto (onStream codec env streamId (offset.getD 0) data fin) conn := by
  refine Sequential.read_bind ?_
  split_ifs with uni other
  · exact drainUni_goes
  · exact sendPacket_goes (by simp [Frame.isStream])
  · simp only [not_or, not_not] at other
    rw [← Bool.not_eq_true, answers_iff] at foreign
    exact absurd ⟨other.2, other.1, uni⟩ foreign

/-- Data of the query stream, with the note of its frame. -/
theorem onStream_own_goes {space : Space} {streamId : Nat} {offset length : Option Nat}
    {data : Bytes} {fin : Bool} {outcome : Except Error Unit}
    {after : QuicConnection PacketKey RootStore}
    (answers : codec.answers conn.streamId (.stream streamId offset data length fin) = true)
    (ran : onStream codec env streamId (offset.getD 0) data fin
      (noting conn space (.stream streamId offset data length fin)) = (outcome, after)) :
    (outcome = .ok () → Follows codec crypto conn after) ∧
      ∀ error, outcome = .error error → Fails codec crypto conn after := by
  have rules := @follows_sequential _ _ codec crypto
  obtain ⟨own, bidi, notUni⟩ := answers_iff.mp answers
  unfold onStream onResponse at ran
  have ours : ¬ (codec.streamType streamId ≠ codec.clientBidi ∨
      streamId ≠ (noting conn space (.stream streamId offset data length fin)).streamId) :=
    fun other => other.elim (fun different => different bidi) fun different => different own
  rw [read_bind_run, if_neg notUni, if_neg ours, read_bind_run] at ran
  cases placed : placeResponse conn.queryRx.buf (offset.getD 0) data with
  | none =>
      rw [show placeResponse (noting conn space _).queryRx.buf (offset.getD 0) data = none from
        placed] at ran
      cases ran
      exact ⟨(fun done => by cases done), fun _ _ => ⟨conn.ledger, .refl, .unplaced space _⟩⟩
  | some buf =>
      rw [show placeResponse (noting conn space _).queryRx.buf (offset.getD 0) data = some buf from
        placed] at ran
      have moved : Follows codec crypto conn { noting conn space
          (.stream streamId offset data length fin) with
            queryRx := ⟨buf, conn.queryRx.fin || fin⟩ } :=
        .of_step (.answered space answers placed)
      have rest : Goes codec crypto (do
          if buf.length > MAX_RESPONSE_BUFFER then shut tooLong
          else do
            .update fun self => { self with connRxConsumed := max self.connRxConsumed buf.length }
            maybeReplenishWindows codec env : Act PacketKey RootStore Unit)
          { noting conn space (.stream streamId offset data length fin) with
            queryRx := ⟨buf, conn.queryRx.fin || fin⟩ } := by
        split_ifs
        · exact shut_goes
        · exact rules.update_bind (.of_eq rfl) maybeReplenishWindows_goes
      constructor
      · rintro rfl
        exact rules.trans moved (rest.ok _ _ ran)
      · rintro error rfl
        exact rules.fails moved (rest.bad _ _ ran)

/-! ## Frames -/

/-- An acknowledgement takes packets off the list, and may be a sample of the round trip. -/
theorem onAck_run {space : Space} {largest delay : Nat} {ranges : List (Nat × Nat)} :
    ∃ srtt rttvar ptoCount, onAck env space largest delay ranges conn = (.ok (), { conn with
      sent := (conn.ledger.acked space largest ranges).sent
      srtt := srtt
      rttvar := rttvar
      ptoCount := ptoCount }) := by
  unfold onAck
  rw [update_run]
  dsimp only
  split
  · exact ⟨_, _, _, rfl⟩
  · unfold sampleRtt
    dsimp only
    split
    · exact ⟨_, _, _, rfl⟩
    · exact ⟨_, _, _, rfl⟩

theorem onAck_ledger {space : Space} {largest delay : Nat} {ranges : List (Nat × Nat)}
    {outcome : Except Error Unit} {after : QuicConnection PacketKey RootStore}
    (ran : onAck env space largest delay ranges conn = (outcome, after)) :
    outcome = .ok () ∧ after.ledger = conn.ledger.acked space largest ranges := by
  obtain ⟨srtt, rttvar, ptoCount, taken⟩ := @onAck_run _ _ conn env space largest delay ranges
  cases taken.symm.trans ran
  exact ⟨rfl, rfl⟩

/-- A frame that is only noted before it is taken. -/
theorem note_goes {space : Space} {frame : Frame} {rest : Act PacketKey RootStore Unit}
    (silent : ∀ largest delay ranges, frame ≠ .ack largest delay ranges)
    (foreign : codec.answers conn.streamId frame = false)
    (goes : Goes codec crypto rest (noting conn space frame)) :
    Goes codec crypto (QuicConnection.note (.received space frame) >>= fun _ => rest) conn := by
  have rules := @follows_sequential _ _ codec crypto
  exact rules.update_bind (.of_step (.received space frame silent foreign)) goes

theorem processFrame_goes {space : Space} {frame : Frame}
    (readable : space = .handshake → conn.hsRead.isSome = true) :
    Goes codec crypto (processFrame codec env crypto space frame) conn := by
  have rules := @follows_sequential _ _ codec crypto
  cases frame with
  | ack largest delay ranges =>
      have run : processFrame codec env crypto space (.ack largest delay ranges) conn =
          onAck env space largest delay ranges (noting conn space (.ack largest delay ranges)) := rfl
      constructor
      · intro _ after ran
        obtain ⟨-, same⟩ := onAck_ledger (run ▸ ran)
        refine .of_step ?_
        rw [same]
        exact .acked space largest delay ranges
      · intro error after ran
        obtain ⟨done, -⟩ := onAck_ledger (run ▸ ran)
        cases done
  | stream streamId offset data length fin =>
      cases answers : codec.answers conn.streamId (.stream streamId offset data length fin) with
      | true =>
          exact ⟨fun _ after ran => (onStream_own_goes answers ran).1 rfl,
            fun error after ran => (onStream_own_goes answers ran).2 error rfl⟩
      | false =>
          refine note_goes (by simp) answers (Sequential.read_bind ?_)
          exact onStream_foreign_goes answers
  | crypto offset data => exact note_goes (by simp) rfl (Sequential.read_bind (onCrypto_goes readable))
  | maxData limit =>
      exact note_goes (by simp) rfl (Sequential.read_bind (Sequential.update (.of_eq rfl)))
  | maxStreamData streamId limit =>
      refine note_goes (by simp) rfl (Sequential.read_bind ?_)
      dsimp only
      split_ifs
      · exact Sequential.update (.of_eq rfl)
      · exact rules.pure
  | maxStreams unidirectional limit =>
      refine note_goes (by simp) rfl (Sequential.read_bind ?_)
      cases unidirectional with
      | true => exact Sequential.update (.of_eq rfl)
      | false => exact Sequential.update (.of_eq rfl)
  | connectionClose errorCode frameType reason =>
      exact note_goes (by simp) rfl (Sequential.read_bind shut_goes)
  | pathChallenge tag =>
      refine note_goes (by simp) rfl (Sequential.read_bind ?_)
      exact sendPacket_goes (by simp [Frame.isStream])
  | newConnectionId sequence =>
      refine note_goes (by simp) rfl (Sequential.read_bind ?_)
      dsimp only
      split_ifs
      · exact sendPacket_goes (by simp [Frame.isStream])
      · exact rules.pure
  | resetStream streamId code size =>
      refine note_goes (by simp) rfl (Sequential.read_bind ?_)
      dsimp only
      split_ifs
      · exact shut_goes
      · exact rules.pure
  | stopSending streamId =>
      refine note_goes (by simp) rfl (Sequential.read_bind ?_)
      dsimp only
      split_ifs
      · exact shut_goes
      · exact rules.pure
  | padding | ping | newToken | dataBlocked | streamDataBlocked | streamsBlocked
  | retireConnectionId | pathResponse | handshakeDone | datagram =>
      exact note_goes (by simp) rfl (Sequential.read_bind rules.pure)

theorem processPlaintext_goes {space : Space} {pn : Nat} {plaintext : Bytes}
    (readable : space = .handshake → conn.hsRead.isSome = true) :
    Goes codec crypto (processPlaintext codec env crypto space pn plaintext) conn := by
  have rules := @follows_sequential _ _ codec crypto
  refine rules.bind ?_ fun _ middle _ _ => ?_
  · generalize decodeFrames codec plaintext.length plaintext = frames
    induction frames generalizing conn with
    | nil => exact rules.pure
    | cons frame frames inductionHypothesis =>
        refine rules.bind (processFrame_goes readable) fun _ middle _ moved => ?_
        exact inductionHypothesis fun flight => moved.hsRead_isSome (readable flight)
  · split_ifs
    · exact Sequential.update (.of_eq rfl)
    · exact rules.pure

/-! ## Retry -/

/-- The connection with the keys of a Retry, before its handshake starts again. -/
def rekeyed (conn : QuicConnection PacketKey RootStore) (retry : RetryPacket)
    (initialWrite initialRead : PacketKey) : QuicConnection PacketKey RootStore :=
  { conn with
    serverCid := retry.scid
    retryScid := some retry.scid
    retryToken := retry.token
    initialWrite := initialWrite
    initialRead := initialRead
    nextPn := conn.nextPn.set .initial 0
    largestRx := conn.largestRx.set .initial 0
    pendingAcks := conn.pendingAcks.set .initial []
    cryptoRx := conn.cryptoRx.set .initial .default
    cryptoTx := conn.cryptoTx.set .initial 0
    sent := conn.sent.filter fun packet => packet.space != .initial
    log := conn.log ++ [.retried conn.initialWrite initialWrite] }

theorem applyRetry_goes {retry : RetryPacket} (first : conn.retryScid = none)
    (early : conn.handshakeConfirmed = false) :
    Goes codec crypto (applyRetry codec env retry) conn := by
  have rules := @follows_sequential _ _ codec crypto
  cases write : initialKeyOf codec retry.scid false with
  | error error =>
      have run : applyRetry codec env retry conn = (.error error, { conn with
          serverCid := retry.scid, retryScid := some retry.scid, retryToken := retry.token }) := by
        unfold applyRetry
        rw [read_bind_run, update_bind_run, write]
        rfl
      refine ⟨fun _ _ ran => ?_, fun _ after ran => ?_⟩
      · rw [run] at ran
        cases ran
      · rw [run] at ran
        cases ran
        exact ⟨conn.ledger, .refl, .unkeyed retry.scid conn.initialWrite⟩
  | ok initialWrite =>
      cases read : initialKeyOf codec retry.scid true with
      | error error =>
          have run : applyRetry codec env retry conn = (.error error, { conn with
              serverCid := retry.scid, retryScid := some retry.scid, retryToken := retry.token,
              initialWrite := initialWrite }) := by
            unfold applyRetry
            rw [read_bind_run, update_bind_run, write, lift_ok_bind_run, update_bind_run, read]
            rfl
          refine ⟨fun _ _ ran => ?_, fun _ after ran => ?_⟩
          · rw [run] at ran
            cases ran
          · rw [run] at ran
            cases ran
            exact ⟨conn.ledger, .refl, .unkeyed retry.scid initialWrite⟩
      | ok initialRead =>
          -- The state after the handshake was started again.
          obtain ⟨cfg, hello, restarted⟩ : ∃ cfg hello, restart codec env
              (rekeyed conn retry initialWrite initialRead) = (.ok hello,
                { rekeyed conn retry initialWrite initialRead with
                  tlsCfg := cfg, tls := ClientHandshake.greeted codec.varint cfg env.entropy }) :=
            ⟨_, _, rfl⟩
          have moved : Follows codec crypto conn { rekeyed conn retry initialWrite initialRead with
              tlsCfg := cfg, tls := ClientHandshake.greeted codec.varint cfg env.entropy } :=
            .of_step (.retried retry.scid initialWrite cfg env.entropy first early)
          have run : applyRetry codec env retry conn = (do
              sendCrypto codec env .initial hello 0 true
              .update fun self => { self with cryptoTx := self.cryptoTx.set .initial hello.length })
              { rekeyed conn retry initialWrite initialRead with
                tlsCfg := cfg, tls := ClientHandshake.greeted codec.varint cfg env.entropy } := by
            unfold applyRetry
            rw [read_bind_run, update_bind_run, write, lift_ok_bind_run, update_bind_run, read,
              lift_ok_bind_run, update_bind_run]
            exact bind_of_ok restarted
          have rest : Goes codec crypto (do
              sendCrypto codec env .initial hello 0 true
              .update fun self => { self with cryptoTx := self.cryptoTx.set .initial hello.length })
              { rekeyed conn retry initialWrite initialRead with
                tlsCfg := cfg, tls := ClientHandshake.greeted codec.varint cfg env.entropy } := by
            refine rules.bind (sendPacket_goes (by simp [Frame.isStream])) fun _ middle _ _ => ?_
            exact Sequential.update (.of_eq rfl)
          refine ⟨fun _ _ ran => ?_, fun _ after ran => ?_⟩
          · rw [run] at ran
            exact rules.trans moved (rest.ok _ _ ran)
          · rw [run] at ran
            exact rules.fails moved (rest.bad _ _ ran)

theorem processRetry_goes {dg : Bytes} : Goes codec crypto (processRetry codec env dg) conn := by
  have rules := @follows_sequential _ _ codec crypto
  refine rules.lift_bind fun retry _ => Sequential.read_bind ?_
  split_ifs with foreign late
  · exact rules.pure
  · exact shut_goes
  · simp only [Bool.or_eq_true, not_or, Bool.not_eq_true] at late
    refine rules.lift_bind fun ok _ => ?_
    split_ifs
    · exact rules.pure
    · exact applyRetry_goes (by simpa using late.1.1) late.1.2

/-! ## Datagrams -/

theorem readKey_handshake {header : Header} {space : Space} {key : PacketKey}
    (keyed : conn.readKey header = some (space, key)) (flight : space = .handshake) :
    conn.hsRead.isSome = true := by
  subst flight
  unfold readKey at keyed
  split at keyed
  · cases keyed
  · cases read : conn.hsRead with
    | none => simp [read] at keyed
    | some key => rfl
  · cases read : conn.appRead with
    | none => simp [read] at keyed
    | some key => simp [read] at keyed
  · cases keyed

theorem learnScid_goes {header : Header} : Goes codec crypto (learnScid header) conn := by
  refine Sequential.read_bind ?_
  split_ifs
  · exact Sequential.update (.of_eq rfl)
  · exact follows_sequential.pure

theorem processPacket_goes {dg : Bytes} :
    Goes codec crypto (processPacket codec env crypto dg) conn := by
  have rules := @follows_sequential _ _ codec crypto
  refine Sequential.read_bind (rules.lift_bind fun header _ => ?_)
  split_ifs
  · exact rules.pure
  · cases keyed : conn.readKey header with
    | none => exact rules.pure
    | some both =>
        obtain ⟨space, key⟩ := both
        dsimp only
        split_ifs
        · exact rules.pure
        · refine rules.bind learnScid_goes fun _ middle _ moved => rules.lift_bind fun opened _ => ?_
          cases opened with
          | none => exact rules.pure
          | some both =>
              obtain ⟨pn, plaintext⟩ := both
              refine rules.update_bind (.of_eq rfl) (rules.bind ?_ fun _ _ _ _ => rules.pure)
              exact processPlaintext_goes fun flight =>
                moved.hsRead_isSome (readKey_handshake keyed flight)

/-- Receiving takes no other steps. -/
theorem processDatagram_goes {dg : Bytes} :
    Goes codec crypto (processDatagram codec env crypto dg) conn := by
  have rules := @follows_sequential _ _ codec crypto
  unfold processDatagram
  generalize dg.length + 1 = fuel
  induction fuel generalizing dg conn with
  | zero => exact rules.fail
  | succ fuel inductionHypothesis =>
      unfold processPackets
      split_ifs
      · exact rules.pure
      · exact shut_goes
      · exact processRetry_goes
      · refine rules.bind processPacket_goes fun stop middle _ _ => ?_
        cases stop with
        | none => exact rules.pure
        | some stop => exact rules.lift_bind fun rest _ => inductionHypothesis

end Ledger

end RecurseX.Doq
