import RecurseX.Doq.Changes
import RecurseX.Doq.Plain
import RecurseX.Library.Traces

/-!
# The books of acknowledgements

Which packets a client waits to be acknowledged, and which packets it acknowledges. The first
is decided where a packet is sent, the second where its frames are taken, and by different
measures.
-/

namespace RecurseX.Doq

open Library Wire Stateful QuicConnection

variable {PacketKey RootStore : Type}

/-- Whether a frame asks for an acknowledgement: all do but ACK, PADDING and CONNECTION_CLOSE. -/
def Frame.elicits : Frame → Bool
  | .ack .. | .padding _ | .connectionClose .. => false
  | _ => true

/-! ## What is sent in a run -/

/-- What `sendPacket` is given. -/
structure Sending where
  env : Env
  space : Space
  frames : List Frame
  padInitial : Bool

/-- The call of `sendPacket`. -/
def Sending.act (codec : Codec PacketKey) (sending : Sending) : Act PacketKey RootStore Unit :=
  sendPacket codec sending.env sending.space sending.frames sending.padInitial

/-- The packet that goes out is put on the list of those to be sent again. -/
def Sending.Tracked (codec : Codec PacketKey) (conn : QuicConnection PacketKey RootStore)
    (sending : Sending) : Prop :=
  (sending.act codec conn).2.sent = conn.sent ++
    [⟨sending.space, conn.nextPn.atSpace sending.space, sending.env.now, sending.frames⟩]

/-- Frames were handed to be sent, or a packet went out. -/
def Event.isTransmission : Event PacketKey → Bool
  | .handed .. | .sent .. => true
  | _ => false

/-- Nothing is sent, and nothing is put on the list of packets to be sent again. -/
structure Unsending (before after : QuicConnection PacketKey RootStore) : Prop where
  log : after.log.filter Event.isTransmission = before.log.filter Event.isTransmission
  sent : after.sent.Sublist before.sent

/-- One call of `sendPacket`. -/
def Sends (codec : Codec PacketKey) (sending : Sending)
    (before after : QuicConnection PacketKey RootStore) : Prop :=
  after = (sending.act codec before).2

/-- The calls of `sendPacket` that lead from one state to another. -/
abbrev Transmitted (codec : Codec PacketKey) :
    QuicConnection PacketKey RootStore → List (QuicConnection PacketKey RootStore × Sending) →
      QuicConnection PacketKey RootStore → Prop :=
  Traced Unsending (Sends codec)

/-- Every packet on the list has one frame. -/
def Singles (conn : QuicConnection PacketKey RootStore) : Prop :=
  ∀ packet ∈ conn.sent, ∃ frame, packet.frames = [frame]

/-- All packets that lead from one state to another have one frame. -/
def Transmits (codec : Codec PacketKey) :
    QuicConnection PacketKey RootStore → QuicConnection PacketKey RootStore → Prop :=
  Calls Unsending (Sends codec) fun made => ∃ frame, made.2.frames = [frame]

section Transmitting

variable {codec : Codec PacketKey} {crypto : Crypto RootStore} {env : Env}
variable {conn before after : QuicConnection PacketKey RootStore}

theorem transmits_sequential :
    Sequential (@Transmits PacketKey RootStore codec) (Transmits codec) :=
  calls_sequential

/-- One packet of one frame. -/
theorem Transmits.single (sending : Sending) {frame : Frame} (one : sending.frames = [frame]) :
    Transmits codec conn (sending.act codec conn).2 :=
  .of_call rfl ⟨frame, one⟩

theorem Unsending.of_eq (log : after.log = before.log) (sent : after.sent = before.sent) :
    Unsending before after :=
  ⟨by rw [log], by rw [sent]⟩

theorem Unsending.transmits (unsending : Unsending before after) : Transmits codec before after :=
  .of_quiet unsending

/-- Nothing of what was sent changes. -/
theorem Transmits.quiet (log : after.log = before.log) (sent : after.sent = before.sent) :
    Transmits codec before after :=
  .of_quiet (.of_eq log sent)

/-- An event is noted that is not about sending. -/
theorem Transmits.note {event : Event PacketKey} (unheard : event.isTransmission = false)
    (log : after.log = before.log ++ [event]) (sent : after.sent = before.sent) :
    Transmits codec before after :=
  .of_quiet ⟨by simp [log, List.filter_append, unheard], by rw [sent]⟩

theorem sendPacket_transmits {space : Space} {frame : Frame} {padInitial : Bool} :
    Moves (Transmits codec) (Transmits codec) (sendPacket codec env space [frame] padInitial) conn :=
  .of_after (Transmits.single ⟨env, space, [frame], padInitial⟩ rfl)

theorem onAck_unsending {space : Space} {largest delay : Nat} {ranges : List (Nat × Nat)} :
    Unsending conn (onAck env space largest delay ranges conn).2 := by
  obtain ⟨-, same⟩ := Ledger.onAck_ledger (run_eq (rfl :
    (onAck env space largest delay ranges conn).1 = _))
  refine ⟨congrArg (List.filter Event.isTransmission) (congrArg Ledger.log same), ?_⟩
  rw [show (onAck env space largest delay ranges conn).2.sent = _ from congrArg Ledger.sent same]
  exact List.filter_sublist

theorem Change.transmits {data : Prop} (change : Change codec crypto data before after) :
    Transmits codec before after := by
  cases change with
  | handed env space frame =>
      exact .single ⟨env, space, [frame], false⟩ rfl
  | acked => exact onAck_unsending.transmits
  | completed | accepted => exact .note rfl rfl rfl
  | buffered | fed | keyed | readable | limited | confirmed | closed | drained | answered
  | announced => exact .quiet rfl rfl

theorem Changes.transmits {data : Prop} (changes : Changes codec crypto data before after) :
    Transmits codec before after := by
  induction changes with
  | refl => exact transmits_sequential.refl _
  | tail _ change inductionHypothesis =>
      exact transmits_sequential.trans inductionHypothesis change.transmits

theorem processFrame_transmits {space : Space} {frame : Frame} :
    Moves (Transmits codec) (Transmits codec) (processFrame codec env crypto space frame) conn := by
  have noted : Transmits codec conn (Ledger.noting conn space frame) := .note rfl rfl rfl
  exact .of_after (transmits_sequential.trans noted (processFrame_changes (run_eq rfl)).transmits)

theorem processPlaintext_transmits {space : Space} {pn : Nat} {plaintext : Bytes} :
    Moves (Transmits codec) (Transmits codec)
      (processPlaintext codec env crypto space pn plaintext) conn := by
  have rules := @transmits_sequential _ RootStore codec
  refine rules.bind (rules.each fun _ _ _ => processFrame_transmits) fun _ _ _ _ => ?_
  split_ifs
  · exact Sequential.update (.quiet rfl rfl)
  · exact rules.pure

theorem shut_transmits {α : Type} {error : Error} :
    Moves (Transmits codec) (Transmits codec) (shut error : Act PacketKey RootStore α) conn :=
  transmits_sequential.update_bind (.quiet rfl rfl) transmits_sequential.fail

theorem greet_transmits {hello : Bytes} :
    Moves (Transmits codec) (Transmits codec) (greet codec env hello) conn :=
  transmits_sequential.bind sendPacket_transmits fun _ _ _ _ => Sequential.update (.quiet rfl rfl)

theorem applyRetry_transmits {retry : RetryPacket} :
    Moves (Transmits codec) (Transmits codec) (applyRetry codec env retry) conn := by
  have rules := @transmits_sequential _ RootStore codec
  refine Sequential.read_bind (rules.update_bind (.quiet rfl rfl) (rules.lift_bind fun write _ => ?_))
  refine rules.update_bind (.quiet rfl rfl) (rules.lift_bind fun read _ => ?_)
  refine rules.update_bind (Unsending.transmits ⟨?_, List.filter_sublist⟩) (rules.bind ?_ fun hello _ _ _ => ?_)
  · simp [List.filter_append, Event.isTransmission]
  · exact Sequential.read_bind (rules.update_bind (.quiet rfl rfl) rules.pure)
  · exact greet_transmits

theorem processRetry_transmits {dg : Bytes} :
    Moves (Transmits codec) (Transmits codec) (processRetry codec env dg) conn := by
  have rules := @transmits_sequential _ RootStore codec
  refine rules.lift_bind fun retry _ => Sequential.read_bind ?_
  split_ifs
  · exact rules.pure
  · exact shut_transmits
  · refine rules.lift_bind fun ok _ => ?_
    split_ifs
    · exact rules.pure
    · exact applyRetry_transmits

theorem processPacket_transmits {dg : Bytes} :
    Moves (Transmits codec) (Transmits codec) (processPacket codec env crypto dg) conn := by
  have rules := @transmits_sequential _ RootStore codec
  have learnt {header : Header} : Moves (Transmits codec) (Transmits codec) (learnScid header) conn := by
    refine Sequential.read_bind ?_
    split_ifs
    · exact Sequential.update (.quiet rfl rfl)
    · exact rules.pure
  refine Sequential.read_bind (rules.lift_bind fun header _ => ?_)
  split_ifs
  · exact rules.pure
  · cases conn.readKey header with
    | none => exact rules.pure
    | some both =>
        dsimp only
        split_ifs
        · exact rules.pure
        · refine rules.bind learnt fun _ middle _ _ => rules.lift_bind fun opened _ => ?_
          cases opened with
          | none => exact rules.pure
          | some both =>
              refine rules.update_bind (.quiet rfl rfl) ?_
              exact rules.bind processPlaintext_transmits fun _ _ _ _ => rules.pure

theorem firstPacket_transmits {dg : Bytes} :
    Moves (Transmits codec) (Transmits codec) (firstPacket codec env crypto dg) conn := by
  unfold firstPacket
  split_ifs
  · exact shut_transmits
  · exact transmits_sequential.bind processRetry_transmits fun _ _ _ _ => transmits_sequential.pure
  · exact processPacket_transmits

theorem transmits_passive :
    Passive codec (@Transmits PacketKey RootStore codec) where
  rules := transmits_sequential
  sends _ _ _ _ _ := sendPacket_transmits.all (run_eq rfl)
  acks _ _ := .quiet rfl rfl
  heard _ := .quiet rfl rfl
  probes _ := Unsending.transmits ⟨rfl, List.nil_sublist _⟩
  asked _ _ := .quiet rfl rfl
  shut _ _ := .quiet rfl rfl
  parted _ := .quiet rfl rfl

/-- Everything that is sent in a turn goes out in packets of one frame. -/
theorem turn_transmits (turn : Turn) (singles : Singles conn) :
    Moves (Transmits codec) (Transmits codec) (turn.act codec crypto) conn := by
  cases turn with
  | greet env hello => exact greet_transmits
  | packet env dg => exact transmits_sequential.bind firstPacket_transmits fun _ _ _ _ => transmits_sequential.pure
  | other op undelivered =>
      cases started : op.isStart with
      | false =>
          refine transmits_passive.op undelivered started fun env packet member _ => ?_
          obtain ⟨frame, single⟩ := singles packet member
          rw [resend, single]
          exact sendPacket_transmits
      | true =>
          cases op with
          | openStream query =>
              refine .of_after ?_
              rcases openStream_cases (run_eq rfl) with ⟨-, same⟩ | ⟨-, -, same⟩
              · exact same ▸ transmits_sequential.refl conn
              · exact same ▸ .quiet rfl rfl
          | _ => cases started

/-- The list after a call. -/
theorem Sending.sent_cases (codec : Codec PacketKey) (conn : QuicConnection PacketKey RootStore)
    (sending : Sending) :
    (sending.act codec conn).1 = .ok () ∧ (sending.act codec conn).2.sent =
        (if sending.frames.isEmpty then conn.sent
        else conn.sent ++
          [⟨sending.space, conn.nextPn.atSpace sending.space, sending.env.now, sending.frames⟩]) ∨
      (∃ error, (sending.act codec conn).1 = .error error) ∧
        (sending.act codec conn).2.sent = conn.sent := by
  rcases ran : sending.act codec conn with ⟨outcome, after⟩
  obtain ⟨key, rfl, -, rfl⟩ | ⟨error, rfl, rfl⟩ := Ledger.sendPacket_cases ran
  · exact .inl ⟨rfl, rfl⟩
  · exact .inr ⟨⟨error, rfl⟩, rfl⟩

/-- What goes out with one frame is on the list with one frame. -/
theorem Transmits.singles (transmits : Transmits codec before after) (singles : Singles before) :
    Singles after := by
  obtain ⟨calls, traced, single⟩ := transmits
  refine traced.invariant ?_ ?_ single singles
  · exact fun unsending singles packet member => singles packet (unsending.sent.subset member)
  · rintro conn last sending rfl ⟨frame, single⟩ singles packet member
    obtain ⟨-, grown⟩ | ⟨-, same⟩ := sending.sent_cases codec conn
    · rw [grown] at member
      split_ifs at member
      · exact singles packet member
      · obtain old | new := List.mem_append.mp member
        · exact singles packet old
        · obtain rfl := List.mem_singleton.mp new
          exact ⟨frame, single⟩
    · exact singles packet (same ▸ member)

theorem singles_turnAll {turns : List Turn} (singles : Singles conn) :
    Singles (turnAll codec crypto turns conn) :=
  foldl_invariant _ Singles
    (fun _ turn singles => ((turn_transmits turn singles).all (run_eq rfl)).singles singles) singles

/-- A packet with one frame is put on the list if it goes out, whatever its frame is. -/
theorem Sending.tracked {sending : Sending} {frame : Frame} (one : sending.frames = [frame])
    (goes : (sending.act codec conn).1 = .ok ()) : sending.Tracked codec conn := by
  obtain ⟨-, grown⟩ | ⟨⟨error, failed⟩, -⟩ := sending.sent_cases codec conn
  · rw [Tracked, grown, one]
    rfl
  · cases goes.symm.trans failed

end Transmitting

/-! ## What is acknowledged -/

section Acknowledging

variable {codec : Codec PacketKey} {crypto : Crypto RootStore} {env : Env}
variable {conn before after : QuicConnection PacketKey RootStore}

theorem mem_insertPn {pn other : Nat} {pns : List Nat} :
    other ∈ insertPn pn pns ↔ other = pn ∨ other ∈ pns := by
  induction pns with
  | nil => simp [insertPn]
  | cons first rest inductionHypothesis =>
      rw [insertPn]
      split_ifs with less same
      · exact List.mem_cons
      · simp [same]
      · rw [List.mem_cons, inductionHypothesis, List.mem_cons]
        tauto

/-- What is to be acknowledged after the frames of a packet. -/
theorem processPlaintext_acks {space : Space} {pn : Nat} {plaintext : Bytes}
    {outcome : Except Error Unit}
    (ran : each (processFrame codec env crypto space)
      (decodeFrames codec plaintext.length plaintext) conn = (outcome, after)) :
    (processPlaintext codec env crypto space pn plaintext conn).2.pendingAcks =
      if outcome = .ok () ∧ ∃ frame ∈ decodeFrames codec plaintext.length plaintext,
          ackEliciting frame = true then
        conn.pendingAcks.set space (insertPn pn (conn.pendingAcks.atSpace space))
      else conn.pendingAcks := by
  have kept : after.pendingAcks = conn.pendingAcks :=
    congrArg (·.2.2.2.2.2) (processFrames_standing.keeps ran)
  unfold processPlaintext
  cases outcome with
  | error error => rw [bind_of_error ran, if_neg (by simp), kept]
  | ok _ =>
      rw [bind_of_ok ran]
      simp only [List.any_eq_true, true_and]
      split_ifs
      · rw [update_run, kept]
      · exact kept

/-- A packet that asks for an acknowledgement is to be acknowledged. -/
def Acknowledges (conn : QuicConnection PacketKey RootStore) (frames : List Frame) (space : Space)
    (pn : Nat) : Prop :=
  (∃ frame ∈ frames, frame.elicits = true) → pn ∈ conn.pendingAcks.atSpace space

theorem processPlaintext_acknowledges_iff {space : Space} {pn : Nat} {plaintext : Bytes}
    {frames : List Frame} (decoded : decodeFrames codec plaintext.length plaintext = frames)
    {outcome : Except Error Unit}
    (ran : each (processFrame codec env crypto space) frames conn = (outcome, after)) :
    Acknowledges (processPlaintext codec env crypto space pn plaintext conn).2 frames space pn ↔
      (∀ frame ∈ frames, frame.elicits = false) ∨ pn ∈ conn.pendingAcks.atSpace space ∨
        outcome = .ok () ∧ ∃ frame ∈ frames, ackEliciting frame = true := by
  subst decoded
  have quiet : (∀ frame ∈ decodeFrames codec plaintext.length plaintext, frame.elicits = false) ↔
      ¬ ∃ frame ∈ decodeFrames codec plaintext.length plaintext, frame.elicits = true := by
    simp
  rw [Acknowledges, processPlaintext_acks ran, quiet, imp_iff_not_or]
  split_ifs with queues
  · simp [mem_insertPn, queues]
  · simp [queues]

/-- **The books.** Of the packets of a run, which all have one frame, those are put on the
list of packets to be sent again exactly where they should whose frame asks for an
acknowledgement: an ACK or a CONNECTION_CLOSE is on it as well. Of the packets that open, those
are to be acknowledged where they should that ask for none, or whose number is waiting already,
or that have a PING, CRYPTO or STREAM frame and no frame that fails. -/
theorem bookkeeping_iff (codec : Codec PacketKey) (lawful : codec.Lawful)
    (crypto : Crypto RootStore) (cfg : ClientConfig RootStore) (entropy : Entropy)
    (localCid serverCid hello : Bytes) (conn before : QuicConnection PacketKey RootStore)
    (turns : List Turn) (turn : Turn)
    (opened : QuicConnection.fresh codec cfg entropy localCid serverCid = .ok (hello, conn))
    (reached : turnAll codec crypto turns conn = before) :
    (∃ calls, Transmitted codec before calls (turn.act codec crypto before).2 ∧
      ∀ made ∈ calls, ∃ frame, made.2.frames = [frame] ∧
        ((made.2.act codec made.1).1 = .ok () →
          ((made.2.Tracked codec made.1 ↔ ∃ frame ∈ made.2.frames, frame.elicits = true) ↔
            frame.elicits = true))) ∧
    ∀ env dg header space pn plaintext, turn = .packet env dg →
      Opens codec before dg header space pn plaintext →
      (Acknowledges (turn.act codec crypto before).2 (decodeFrames codec plaintext.length plaintext)
          space pn ↔
        (∀ frame ∈ decodeFrames codec plaintext.length plaintext, frame.elicits = false) ∨
        pn ∈ before.pendingAcks.atSpace space ∨
        (each (processFrame codec env crypto space) (decodeFrames codec plaintext.length plaintext)
            ((before.learning header).numbering space pn)).1 = .ok () ∧
          ∃ frame ∈ decodeFrames codec plaintext.length plaintext, ackEliciting frame = true) := by
  subst reached
  constructor
  · have start : Singles conn := by
      have unsent : conn.sent = [] := by
        obtain ⟨key, cfg, fresh⟩ := fresh_ledger opened
        exact congrArg Ledger.sent fresh
      intro packet member
      rw [unsent] at member
      cases member
    obtain ⟨calls, traced, single⟩ :=
      (@turn_transmits _ _ codec crypto _ turn (singles_turnAll start)).all (run_eq rfl)
    refine ⟨calls, traced, fun made member => ?_⟩
    obtain ⟨frame, one⟩ := single made member
    refine ⟨frame, one, fun goes => ?_⟩
    simp [Sending.tracked one goes, one]
  · rintro env dg header space pn plaintext rfl opens
    have kept : (((turnAll codec crypto turns conn).learning header).numbering space pn).pendingAcks =
        (turnAll codec crypto turns conn).pendingAcks := by
      unfold numbering learning
      split_ifs <;> rfl
    rw [opens.turn lawful, processPlaintext_acknowledges_iff rfl (run_eq rfl), kept]

end Acknowledging

/-! ## Sample packets -/

namespace Plain

/-- A packet of the server that raises a limit. -/
def raise : Bytes := longPacket .initial [1] [9] 0 [1, 2] [.maxData 5]

set_option maxRecDepth 8192 in
/-- The client opens it. -/
theorem raise_opens :
    Opens codec started raise ⟨true, some .initial, [1], [9], [], 11, 33⟩ .initial 0
      (encodeFrame (.maxData 5)) where
  parsed := by decide
  ours := .inr (by decide)
  early _ := by decide
  opened := ⟨[1, 2], by decide, by decide⟩

end Plain

/-- The packet of the ServerHello is to be acknowledged. -/
theorem serverHello_acknowledged :
    Acknowledges ((Turn.packet Plain.env Plain.serverHello).act Plain.codec Sample.crypto
      Plain.started).2 [.crypto 0 Sample.serverHello] .initial 0 := by
  have books := (bookkeeping_iff Plain.codec Plain.codec_lawful Sample.crypto Sample.cfg
    Plain.env.entropy [1] [2] Plain.hello Plain.connection Plain.started
    [.greet Plain.env Plain.hello] (.packet Plain.env Plain.serverHello) Plain.fresh_connection
    rfl).2 _ _ _ _ _ _ rfl serverHello_opens
  have decoded : decodeFrames Plain.codec
      (Plain.encodeFrame (.crypto 0 Sample.serverHello)).length
      (Plain.encodeFrame (.crypto 0 Sample.serverHello)) = [.crypto 0 Sample.serverHello] := by
    decide
  rw [decoded] at books
  exact books.mpr (.inr (.inr ⟨by decide +kernel, _, List.mem_cons_self, rfl⟩))

/-- An acknowledgement is put on the list of packets to be sent again, and a packet that
raises a limit is not acknowledged. -/
theorem books_disagree :
    QuicConnection.fresh Plain.codec Sample.cfg Plain.env.entropy [1] [2] =
      .ok (Plain.hello, Plain.connection) ∧
    turnAll Plain.codec Sample.crypto [.greet Plain.env Plain.hello] Plain.connection =
      Plain.started ∧
    (∃ packet ∈ (turnAll Plain.codec Sample.crypto [.packet Plain.env Plain.serverHello,
        .other (.flushAcks Plain.env) rfl] Plain.started).sent,
      packet.frames = [.ack 0 0 [(0, 0)]] ∧ ∀ frame ∈ packet.frames, frame.elicits = false) ∧
    Opens Plain.codec Plain.started Plain.raise ⟨true, some .initial, [1], [9], [], 11, 33⟩ .initial
      0 (Plain.encodeFrame (.maxData 5)) ∧
    ¬ Acknowledges ((Turn.packet Plain.env Plain.raise).act Plain.codec Sample.crypto
      Plain.started).2 [.maxData 5] .initial 0 := by
  refine ⟨Plain.fresh_connection, rfl, ⟨⟨.initial, 1, 0, [.ack 0 0 [(0, 0)]]⟩, by decide +kernel, rfl,
    by decide⟩, Plain.raise_opens, fun acknowledges => ?_⟩
  exact absurd (acknowledges ⟨.maxData 5, List.mem_cons_self, rfl⟩) (by decide +kernel)

end RecurseX.Doq
