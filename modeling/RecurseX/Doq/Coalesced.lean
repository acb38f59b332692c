import RecurseX.Doq.Inert
import RecurseX.Doq.Ledger

/-!
# Packets that share a datagram

A datagram is read packet by packet, and a packet that is discarded ends it. So the
packets behind it are lost. `processDatagram_flatten_iff` says when that makes no
difference to a connection that gets each of them in a datagram of its own.
-/

namespace RecurseX.Doq

open Library Wire Stateful

/-- What is read of a packet is read of its own octets, whatever follows them. -/
structure Codec.Local {PacketKey : Type} (codec : Codec PacketKey) : Prop where
  varint : ∀ {bytes more result}, codec.varint.decode bytes = some result →
    codec.varint.decode (bytes ++ more) = some result
  unprotect : ∀ {key packet more pnOffset isLong}, pnOffset + 20 ≤ packet.length →
    codec.unprotectHeader key (packet ++ more) pnOffset isLong =
      (codec.unprotectHeader key packet pnOffset isLong).map fun both => (both.1, both.2 ++ more)

namespace QuicConnection

variable {PacketKey RootStore : Type}

/-- A packet with a long header and a length, which is that of the packet, and with the
octets that header protection is computed from. -/
structure LongPacket (codec : Codec PacketKey) (packet : Bytes) : Prop where
  parses : ∃ first header, packet.head? = some first ∧ first &&& 0x80 ≠ 0 ∧
    parseLongHeader codec first packet = .ok header ∧ header.payloadEnd = packet.length ∧
    header.ptype ≠ some .retry ∧ header.pnOffset + 20 ≤ packet.length

/-- A packet with a short header. -/
def ShortPacket (packet : Bytes) : Prop := ∃ first, packet.head? = some first ∧ first &&& 0x80 = 0

/-- The packets of a datagram: long headers, and at most one short header at the end. -/
inductive Coalesced (codec : Codec PacketKey) : List Bytes → Prop where
  | nil : Coalesced codec []
  | short {packet : Bytes} (lone : ShortPacket packet) : Coalesced codec [packet]
  | long {packet : Bytes} {packets : List Bytes} (wellFormed : LongPacket codec packet)
      (rest : Coalesced codec packets) : Coalesced codec (packet :: packets)

/-- Reading the packet changes nothing: its header tells nothing new, and if it opens, its
number is not the largest and there is no frame in it. -/
def Idle (codec : Codec PacketKey) (conn : QuicConnection PacketKey RootStore) (packet : Bytes) :
    Prop :=
  ∃ header, conn.parseHeader codec packet = .ok header ∧ ¬ conn.Learns header ∧
    ∀ space pn plaintext, Opens codec conn packet header space pn plaintext →
      pn ≤ conn.largestRx.atSpace space ∧ decodeFrames codec plaintext.length plaintext = []

/-- Reading the packets one by one: where one is discarded, all that follow it are idle. -/
def LosesNothing (codec : Codec PacketKey) (env : Env) (crypto : Crypto RootStore)
    (conn : QuicConnection PacketKey RootStore) (packets : List Bytes) : Prop :=
  ∀ before packet rest reached after, packets = before ++ packet :: rest →
    each (processDatagram codec env crypto) before conn = (.ok (), reached) →
    Discards codec reached packet after → ∀ later ∈ rest, Idle codec after later

/-! ## One packet in front of others -/

variable {β : Type} {codec : Codec PacketKey} {env : Env} {crypto : Crypto RootStore}
  {conn : QuicConnection PacketKey RootStore}

/-- A result that does not depend on what follows the octets it was read from. -/
theorem bind_eq_ok_mono {ε α β : Type} {first other : Except ε α} {next further : α → Except ε β}
    {result : β} (starts : ∀ value, first = .ok value → other = .ok value)
    (goes : ∀ value, next value = .ok result → further value = .ok result)
    (computed : (first >>= next) = .ok result) : (other >>= further) = .ok result := by
  obtain ⟨value, found, rest⟩ := bind_eq_ok.mp computed
  exact bind_eq_ok.mpr ⟨value, starts value found, goes value rest⟩

section Append

variable {buf more : Bytes} {position length : Nat}

theorem sliceAt_append {segment : Bytes} (read : sliceAt buf position length = .ok segment) :
    sliceAt (buf ++ more) position length = .ok segment := by
  obtain ⟨⟨inside, started⟩, width⟩ := sliceAt_eq_ok.mp read
  refine sliceAt_eq_ok.mpr ⟨⟨by rw [List.length_append]; omega, ?_⟩, width⟩
  rw [List.drop_append_of_le_length inside]
  exact started.trans (List.prefix_append _ _)

theorem byteAt_append {byte : UInt8} (read : byteAt buf position = .ok byte) :
    byteAt (buf ++ more) position = .ok byte := by
  rw [byteAt_eq_ok] at read ⊢
  obtain ⟨inside, -⟩ := List.getElem?_eq_some_iff.mp read
  rw [List.getElem?_append_left inside, read]

theorem u32At_append {value : UInt32} (read : u32At buf position = .ok value) :
    u32At (buf ++ more) position = .ok value :=
  bind_eq_ok_mono (fun _ => sliceAt_append) (fun _ => id) read

theorem failIf_append {condition other : Prop} [Decidable condition] [Decidable other]
    {error : Error} (weaker : other → condition) :
    ∀ done, failIf condition error = .ok done → failIf other error = .ok done := by
  intro done passed
  exact failIf_eq_ok.mpr fun holds => failIf_eq_ok.mp passed (weaker holds)

end Append

/-- An integer, read from where it starts. -/
theorem decode_append (own : codec.Local) {buf more : Bytes} {position : Nat} {error : Error}
    {next further : Nat × Nat → Result β} {result : β}
    (goes : ∀ both, next both = .ok result → further both = .ok result)
    (read : (restAt buf position >>= fun rest => okOr (codec.varint.decode rest) error >>= next) =
      .ok result) :
    (restAt (buf ++ more) position >>= fun rest =>
      okOr (codec.varint.decode rest) error >>= further) = .ok result := by
  obtain ⟨rest, found, read⟩ := bind_eq_ok.mp read
  obtain ⟨inside, rfl⟩ := restAt_eq_ok.mp found
  obtain ⟨both, decoded, read⟩ := bind_eq_ok.mp read
  refine bind_eq_ok.mpr ⟨(buf ++ more).drop position,
    restAt_eq_ok.mpr ⟨by rw [List.length_append]; omega, rfl⟩,
    bind_eq_ok.mpr ⟨both, okOr_eq_ok.mpr ?_, goes both read⟩⟩
  rw [List.drop_append_of_le_length inside]
  exact own.varint (okOr_eq_ok.mp decoded)

theorem parseToken_append (own : codec.Local) {ptype : LongType} {packet more : Bytes} {pos : Nat}
    {result : Bytes × Nat} (parsed : parseToken codec ptype packet pos = .ok result) :
    parseToken codec ptype (packet ++ more) pos = .ok result := by
  unfold parseToken at parsed ⊢
  split_ifs at parsed ⊢ with initial
  · refine decode_append own (fun both => ?_) parsed
    refine bind_eq_ok_mono (failIf_append fun short => ?_) fun _ => ?_
    · rw [List.length_append] at short
      omega
    · exact bind_eq_ok_mono (fun _ => sliceAt_append) fun _ => id
  · exact parsed

theorem parseLongHeader_append (own : codec.Local) {first : UInt8} {packet more : Bytes}
    {header : Header} (parsed : parseLongHeader codec first packet = .ok header) :
    parseLongHeader codec first (packet ++ more) = .ok header := by
  unfold parseLongHeader at parsed ⊢
  revert parsed
  refine bind_eq_ok_mono (failIf_append fun short => ?_) fun _ => ?_
  · rw [List.length_append] at short
    omega
  refine bind_eq_ok_mono (fun _ => u32At_append) fun version => ?_
  refine bind_eq_ok_mono (failIf_append id) fun _ => ?_
  refine bind_eq_ok_mono (fun _ => byteAt_append) fun dcidLen => ?_
  refine bind_eq_ok_mono (failIf_append fun bad => ?_) fun _ => ?_
  · rw [List.length_append] at bad
    omega
  refine bind_eq_ok_mono (fun _ => sliceAt_append) fun dcid => ?_
  refine bind_eq_ok_mono (failIf_append fun short => ?_) fun _ => ?_
  · rw [List.length_append] at short
    omega
  refine bind_eq_ok_mono (fun _ => byteAt_append) fun scidLen => ?_
  refine bind_eq_ok_mono (failIf_append fun bad => ?_) fun _ => ?_
  · rw [List.length_append] at bad
    omega
  refine bind_eq_ok_mono (fun _ => sliceAt_append) fun scid => ?_
  refine bind_eq_ok_mono (fun _ => parseToken_append own) fun token => ?_
  refine decode_append own fun length => ?_
  refine bind_eq_ok_mono (failIf_append id) fun _ => ?_
  refine bind_eq_ok_mono (failIf_append fun short => ?_) fun _ => id
  rw [List.length_append] at short
  omega

/-- What a long header has been checked for. -/
theorem parseLongHeader_checked {first : UInt8} {packet : Bytes} {header : Header}
    (parsed : parseLongHeader codec first packet = .ok header) :
    u32At packet 1 = .ok VERSION_1 ∧ header.ptype = some (longType first) := by
  unfold parseLongHeader at parsed
  simp only [bind_eq_ok] at parsed
  obtain ⟨_, -, version, read, _, current, _, -, _, -, _, -, _, -, _, -, _, -, _, -, _, -, _, -, _,
    -, _, -, _, -, done⟩ := parsed
  cases done
  rw [failIf_eq_ok, not_not] at current
  exact ⟨current ▸ read, rfl⟩

theorem openPacket_append (lawful : codec.Lawful) (own : codec.Local) {packet more : Bytes}
    {header : Header} (inside : header.payloadEnd ≤ packet.length)
    (sample : header.pnOffset + 20 ≤ packet.length) (space : Space) (key : PacketKey) :
    conn.openPacket codec header space key (packet ++ more) =
      conn.openPacket codec header space key packet := by
  have cut {clear more : Bytes} {position length : Nat} (fits : position + length ≤ clear.length) :
      sliceAt (clear ++ more) position length = sliceAt clear position length := by
    rw [sliceAt, sliceAt, if_pos fits, if_pos (by rw [List.length_append]; omega),
      List.drop_append_of_le_length (by omega),
      List.take_append_of_le_length (by rw [List.length_drop]; omega)]
  unfold openPacket
  rw [own.unprotect sample]
  cases unprotected : codec.unprotectHeader key packet header.pnOffset header.isLong with
  | none => rfl
  | some both =>
      obtain ⟨pnLen, clear⟩ := both
      obtain ⟨same, -⟩ := lawful.unprotected unprotected
      dsimp only [Option.map_some]
      split_ifs with length beyond
      · rfl
      · rw [cut (by omega)]
      · rw [cut (by omega), cut (by omega), cut (by omega)]

/-- The header of a packet, whatever follows the packet. -/
theorem LongPacket.header (own : codec.Local) {packet : Bytes}
    (wellFormed : LongPacket codec packet) :
    ∃ header, (∀ (conn : QuicConnection PacketKey RootStore) more,
        conn.parseHeader codec (packet ++ more) = .ok header) ∧
      header.payloadEnd = packet.length ∧ header.pnOffset + 20 ≤ packet.length := by
  obtain ⟨first, header, starts, isLong, parsed, whole, -, sample⟩ := wellFormed.parses
  refine ⟨header, fun conn more => ?_, whole, sample⟩
  unfold parseHeader
  rw [List.head?_append, starts]
  simp only [Option.some_or, okOr, ok_bind, if_pos isLong]
  exact parseLongHeader_append own parsed

/-- A long packet is neither a version negotiation nor a Retry, whatever follows it. -/
theorem LongPacket.ordinary {packet : Bytes} (wellFormed : LongPacket codec packet) (more : Bytes) :
    longVersion (packet ++ more) 0 = false ∧ isRetry (packet ++ more) = false := by
  obtain ⟨first, header, starts, isLong, parsed, -, notRetry, -⟩ := wellFormed.parses
  obtain ⟨version, ptype⟩ := parseLongHeader_checked parsed
  have read : u32At (packet ++ more) 1 = .ok VERSION_1 := u32At_append version
  rw [ptype] at notRetry
  cases packet with
  | nil => cases starts
  | cons head tail =>
      obtain rfl : head = first := by simpa using starts
      constructor
      · simp only [longVersion, List.cons_append]
        rw [List.cons_append] at read
        rw [read]
        simp [VERSION_1]
      · have other : longType head ≠ .retry := fun same => notRetry (congrArg some same)
        simp [isRetry, other]

theorem ShortPacket.ordinary {packet : Bytes} (lone : ShortPacket packet) :
    longVersion packet 0 = false ∧ isRetry packet = false := by
  obtain ⟨first, starts, isShort⟩ := lone
  cases packet with
  | nil => cases starts
  | cons head tail =>
      obtain rfl : head = first := by simpa using starts
      simp [isRetry, longVersion, isShort]

/-- A packet that fills its datagram. -/
structure Lone (codec : Codec PacketKey) (conn : QuicConnection PacketKey RootStore)
    (packet : Bytes) : Prop where
  some : packet ≠ []
  version : longVersion packet 0 = false
  notRetry : isRetry packet = false
  whole : ∀ header, conn.parseHeader codec packet = .ok header →
    header.payloadEnd = packet.length

theorem LongPacket.lone (own : codec.Local) {packet : Bytes}
    (wellFormed : LongPacket codec packet) : Lone codec conn packet := by
  obtain ⟨header, parsed, whole, -⟩ := @LongPacket.header _ RootStore codec own packet wellFormed
  obtain ⟨version, notRetry⟩ := wellFormed.ordinary []
  rw [List.append_nil] at version notRetry
  refine ⟨?_, version, notRetry, fun other reparsed => ?_⟩
  · rintro rfl
    obtain ⟨first, _, starts, -⟩ := wellFormed.parses
    cases starts
  · have here := parsed conn []
    rw [List.append_nil] at here
    cases here.symm.trans reparsed
    exact whole

theorem ShortPacket.whole {packet : Bytes} (lone : ShortPacket packet) :
    Lone codec conn packet := by
  obtain ⟨version, notRetry⟩ := lone.ordinary
  obtain ⟨first, starts, isShort⟩ := lone
  refine ⟨?_, version, notRetry, fun header parsed => ?_⟩
  · rintro rfl
    cases starts
  · unfold parseHeader parseShortHeader at parsed
    rw [starts] at parsed
    simp only [okOr, ok_bind, isShort, ne_eq, not_true_eq_false, if_false, bind_eq_ok] at parsed
    obtain ⟨_, -, _, -, done⟩ := parsed
    cases done
    rfl

/-- A long packet is taken the same way whatever follows it. -/
theorem processPacket_append (lawful : codec.Lawful) (own : codec.Local) {packet : Bytes}
    (wellFormed : LongPacket codec packet) (more : Bytes) :
    processPacket codec env crypto (packet ++ more) conn =
      processPacket codec env crypto packet conn := by
  obtain ⟨header, parsed, whole, sample⟩ := @LongPacket.header _ RootStore codec own packet wellFormed
  have alone := parsed conn []
  rw [List.append_nil] at alone
  unfold processPacket
  rw [read_bind_run, read_bind_run, parsed conn more, alone, lift_ok_bind_run, lift_ok_bind_run]
  simp only [openPacket_append lawful own (Nat.le_of_eq whole) sample]

/-! ## Frames leave their mark -/

/-- The log goes on. -/
def Logs (before after : QuicConnection PacketKey RootStore) : Prop := before.log <+: after.log

theorem logs_sequential : Sequential (@Logs PacketKey RootStore) fun _ _ => True where
  refl _ := List.prefix_rfl
  trans first second := List.IsPrefix.trans first second
  stop _ := trivial
  fails _ _ := trivial

theorem log_of_step {before after : Ledger PacketKey RootStore}
    (step : Ledger.Step codec crypto before after) : before.log <+: after.log := by
  cases step with
  | received | acked | answered | dropped | retried => exact List.prefix_append _ _
  | sent => exact List.prefix_append _ _
  | accepted =>
      exact (List.prefix_append _ _).trans (List.prefix_append _ _)
  | keyed | confirmed | readable => exact List.prefix_rfl

theorem log_of_steps {before after : Ledger PacketKey RootStore}
    (steps : Ledger.Steps codec crypto before after) : before.log <+: after.log := by
  induction steps with
  | refl => exact List.prefix_rfl
  | tail _ step inductionHypothesis => exact inductionHypothesis.trans (log_of_step step)

theorem logs_of_goes {α : Type} {act : Act PacketKey RootStore α}
    (goes : Ledger.Goes codec crypto act conn) : Moves Logs (fun _ _ => True) act conn :=
  ⟨fun value after ran => log_of_steps (goes.ok value after ran), fun _ _ _ => trivial⟩

theorem onResponse_logs (crypto : Crypto RootStore) {offset : Nat} {data : Bytes} {fin : Bool} :
    Moves Logs (fun _ _ => True) (onResponse codec env offset data fin) conn := by
  have rules := @logs_sequential PacketKey RootStore
  have goes {α : Type} {act : Act PacketKey RootStore α} {conn : QuicConnection PacketKey RootStore}
      (steps : Ledger.Goes codec crypto act conn) : Moves Logs (fun _ _ => True) act conn :=
    logs_of_goes steps
  refine Sequential.read_bind ?_
  cases placeResponse conn.queryRx.buf offset data with
  | none => exact goes Ledger.shut_goes
  | some buf =>
      refine rules.update_bind List.prefix_rfl ?_
      split_ifs
      · exact goes Ledger.shut_goes
      · exact rules.update_bind List.prefix_rfl (goes Ledger.maybeReplenishWindows_goes)

/-- A frame that is taken is in the log. -/
theorem processFrame_notes {space : Space} {frame : Frame}
    (readable : space = .handshake → conn.hsRead.isSome = true)
    {after : QuicConnection PacketKey RootStore}
    (ran : processFrame codec env crypto space frame conn = (.ok (), after)) :
    conn.log ++ [.received space frame] <+: after.log := by
  have rules := @logs_sequential PacketKey RootStore
  have goes {α : Type} {act : Act PacketKey RootStore α} {conn : QuicConnection PacketKey RootStore}
      (steps : Ledger.Goes codec crypto act conn) : Moves Logs (fun _ _ => True) act conn :=
    logs_of_goes steps
  unfold processFrame at ran
  rw [QuicConnection.note, update_bind_run] at ran
  refine @Moves.ok _ _ _ Logs (fun _ _ => True) _ (Ledger.noting conn space frame) ?_ () after ran
  refine Sequential.read_bind ?_
  cases frame with
  | ack largest delay ranges =>
      refine ⟨fun _ last acked => ?_, fun _ _ _ => trivial⟩
      have same := congrArg Ledger.log (Ledger.onAck_ledger acked).2
      change _ <+: last.log
      rw [show last.log = _ from same]
      exact List.prefix_rfl
  | stream streamId offset data length fin =>
      refine Sequential.read_bind ?_
      split_ifs
      · exact goes Ledger.drainUni_goes
      · exact goes (Ledger.sendPacket_goes (by simp [Frame.isStream]))
      · exact onResponse_logs crypto
  | crypto offset data => exact goes (Ledger.onCrypto_goes readable)
  | maxData limit => exact Sequential.update List.prefix_rfl
  | maxStreamData streamId limit =>
      dsimp only
      split_ifs
      · exact Sequential.update List.prefix_rfl
      · exact rules.pure
  | maxStreams unidirectional limit =>
      cases unidirectional with
      | true => exact Sequential.update List.prefix_rfl
      | false => exact Sequential.update List.prefix_rfl
  | connectionClose errorCode frameType reason => exact goes Ledger.shut_goes
  | pathChallenge tag => exact goes (Ledger.sendPacket_goes (by simp [Frame.isStream]))
  | newConnectionId sequence =>
      dsimp only
      split_ifs
      · exact goes (Ledger.sendPacket_goes (by simp [Frame.isStream]))
      · exact rules.pure
  | resetStream streamId code size =>
      dsimp only
      split_ifs
      · exact goes Ledger.shut_goes
      · exact rules.pure
  | stopSending streamId =>
      dsimp only
      split_ifs
      · exact goes Ledger.shut_goes
      · exact rules.pure
  | padding | ping | newToken | dataBlocked | streamDataBlocked | streamsBlocked
  | retireConnectionId | pathResponse | handshakeDone | datagram => exact rules.pure

theorem each_processFrame_logs {space : Space} {frames : List Frame}
    (readable : space = .handshake → conn.hsRead.isSome = true)
    {after : QuicConnection PacketKey RootStore}
    (ran : each (processFrame codec env crypto space) frames conn = (.ok (), after)) :
    conn.log <+: after.log := by
  induction frames generalizing conn with
  | nil =>
      cases ran
      exact List.prefix_rfl
  | cons frame frames inductionHypothesis =>
      obtain ⟨_, middle, first, rest⟩ := bind_eq_ok_iff.mp ran
      have moved := (Ledger.processFrame_goes readable).ok _ _ first
      have later := inductionHypothesis (fun flight => moved.hsRead_isSome (readable flight)) rest
      exact (log_of_steps moved).trans later

/-- A packet without frames does nothing. -/
theorem processPlaintext_of_no_frames {space : Space} {pn : Nat} {plaintext : Bytes}
    (none : decodeFrames codec plaintext.length plaintext = []) :
    processPlaintext codec env crypto space pn plaintext conn = (.ok (), conn) := by
  unfold processPlaintext
  rw [none]
  rfl

/-- A packet with frames leaves its mark. -/
theorem processPlaintext_notes {space : Space} {pn : Nat} {plaintext : Bytes}
    (readable : space = .handshake → conn.hsRead.isSome = true)
    (some : decodeFrames codec plaintext.length plaintext ≠ [])
    {after : QuicConnection PacketKey RootStore}
    (ran : processPlaintext codec env crypto space pn plaintext conn = (.ok (), after)) :
    conn.log.length < after.log.length := by
  unfold processPlaintext at ran
  obtain ⟨_, middle, taken, noted⟩ := bind_eq_ok_iff.mp ran
  have same : after.log = middle.log := by
    split_ifs at noted
    · cases noted
      rfl
    · cases noted
      rfl
  obtain ⟨frame, frames, listed⟩ := List.exists_cons_of_ne_nil some
  rw [listed] at taken
  obtain ⟨_, between, first, rest⟩ := bind_eq_ok_iff.mp taken
  have moved := (Ledger.processFrame_goes readable).ok _ _ first
  have marked := (processFrame_notes readable first).length_le
  have later := (each_processFrame_logs (fun flight => moved.hsRead_isSome (readable flight))
    rest).length_le
  rw [List.length_append, List.length_singleton] at marked
  rw [same]
  omega

/-! ## Idle packets -/

/-- The packet numbers the connection has seen, and whether it knows the server's identifier. -/
def marks (conn : QuicConnection PacketKey RootStore) : Nat :=
  conn.largestRx.initial + conn.largestRx.handshake + conn.largestRx.application +
    conn.sawServerScid.toNat

/-- The connection has come further: there is more in its log, or it has seen more. -/
def Ahead (before after : QuicConnection PacketKey RootStore) : Prop :=
  before.log.length < after.log.length ∨
    before.log.length = after.log.length ∧ before.marks < after.marks

theorem not_ahead_self : ¬ conn.Ahead conn := by
  unfold Ahead
  omega

theorem Ahead.trans {first middle last : QuicConnection PacketKey RootStore}
    (before : first.Ahead middle) (after : middle.Ahead last) : first.Ahead last := by
  unfold Ahead at *
  omega

theorem learning_keeps (header : Header) :
    (conn.learning header).log = conn.log ∧ (conn.learning header).hsRead = conn.hsRead := by
  unfold learning
  split_ifs
  · exact ⟨rfl, rfl⟩
  · exact ⟨rfl, rfl⟩

/-- Taking the server's identifier is a step ahead. -/
theorem learning_cases (header : Header) :
    conn.learning header = conn ∧
        ¬ (header.isLong = true ∧ header.scid ≠ [] ∧ conn.sawServerScid = false) ∨
      conn.Ahead (conn.learning header) ∧
        (header.isLong = true ∧ header.scid ≠ [] ∧ conn.sawServerScid = false) := by
  unfold learning
  split_ifs with learns
  · refine .inr ⟨.inr ⟨rfl, ?_⟩, learns⟩
    simp [marks, learns.2.2]
  · exact .inl ⟨rfl, learns⟩

/-- So is a larger packet number. -/
theorem numbering_cases (space : Space) (pn : Nat) :
    conn.numbering space pn = conn ∧ pn ≤ conn.largestRx.atSpace space ∨
      conn.Ahead (conn.numbering space pn) ∧ conn.largestRx.atSpace space < pn := by
  by_cases seen : pn ≤ conn.largestRx.atSpace space
  · refine .inl ⟨?_, seen⟩
    unfold numbering
    rw [max_eq_left seen]
    cases space <;> rfl
  · refine .inr ⟨.inr ⟨rfl, ?_⟩, by omega⟩
    unfold numbering marks
    rw [max_eq_right (by omega)]
    cases space with
    | initial => simp only [PerSpace.atSpace, PerSpace.set] at seen ⊢; omega
    | handshake => simp only [PerSpace.atSpace, PerSpace.set] at seen ⊢; omega
    | application => simp only [PerSpace.atSpace, PerSpace.set] at seen ⊢; omega

/-- Where the packet that is taken ends. -/
theorem processPacket_stop (lawful : codec.Lawful) {packet : Bytes} {stop : Nat}
    {after : QuicConnection PacketKey RootStore}
    (ran : processPacket codec env crypto packet conn = (.ok (some stop), after)) :
    ∃ header, conn.parseHeader codec packet = .ok header ∧ stop = header.payloadEnd := by
  cases parsed : conn.parseHeader codec packet with
  | error error =>
      unfold processPacket at ran
      rw [read_bind_run, parsed] at ran
      cases ran
  | ok header =>
      refine ⟨header, rfl, ?_⟩
      rcases processPacket_cases env crypto lawful parsed with
        ⟨space, pn, plaintext, -, taken⟩ | ⟨last, -, discarded⟩
      · rw [taken] at ran
        obtain ⟨_, _, -, done⟩ := bind_eq_ok_iff.mp ran
        cases done
        rfl
      · rw [discarded] at ran
        cases ran

/-- A packet that fills its datagram is all that is taken of it. -/
theorem processPackets_lone (lawful : codec.Lawful) {packet : Bytes}
    (lone : Lone codec conn packet) {fuel : Nat} (enough : packet.length < fuel) :
    processPackets codec env crypto fuel packet conn =
      (processPacket codec env crypto packet >>= fun _ => pure ()) conn := by
  have octets : 0 < packet.length := List.length_pos_iff.mpr lone.some
  obtain ⟨fuel, rfl⟩ : ∃ less, fuel = less + 2 := ⟨fuel - 2, by omega⟩
  rw [processPackets, if_neg (by simp [lone.some]), if_neg (by simp [lone.version]),
    if_neg (by simp [lone.notRetry])]
  refine bind_congr_run fun stopped after ran => ?_
  cases stopped with
  | none => rfl
  | some stop =>
      obtain ⟨header, parsed, rfl⟩ := processPacket_stop lawful ran
      have nothing : restAt packet header.payloadEnd = .ok [] := by
        rw [lone.whole header parsed]
        exact restAt_eq_ok.mpr ⟨le_rfl, List.drop_length.symm⟩
      dsimp only
      rw [nothing, lift_ok_bind_run]
      rfl

/-- What is done with a datagram of one packet. -/
theorem processDatagram_lone (env : Env) (crypto : Crypto RootStore) (lawful : codec.Lawful)
    {packet : Bytes} (lone : Lone codec conn packet) :
    (∃ error, conn.parseHeader codec packet = .error error ∧
      processDatagram codec env crypto packet conn = (.error error, conn)) ∨
    (∃ header space pn plaintext, Opens codec conn packet header space pn plaintext ∧
      processDatagram codec env crypto packet conn =
        processPlaintext codec env crypto space pn plaintext
          ((conn.learning header).numbering space pn)) ∨
    ∃ after, Discards codec conn packet after ∧
      processDatagram codec env crypto packet conn = (.ok (), after) := by
  unfold processDatagram
  rw [processPackets_lone lawful lone (Nat.lt_succ_self _)]
  cases parsed : conn.parseHeader codec packet with
  | error error =>
      refine .inl ⟨error, rfl, bind_of_error ?_⟩
      unfold processPacket
      rw [read_bind_run, parsed]
      rfl
  | ok header =>
      rcases processPacket_cases env crypto lawful parsed with
        ⟨space, pn, plaintext, opens, taken⟩ | ⟨after, discards, discarded⟩
      · refine .inr (.inl ⟨header, space, pn, plaintext, opens, ?_⟩)
        exact (bind_run_eq taken).trans (bind_assoc_run.trans bind_pure_unit_run)
      · exact .inr (.inr ⟨after, discards, bind_of_ok discarded⟩)

theorem Opens.learns_iff {packet plaintext : Bytes} {header : Header} {space : Space} {pn : Nat}
    (opens : Opens codec conn packet header space pn plaintext) :
    conn.Learns header ↔
      (header.isLong = true ∧ header.scid ≠ [] ∧ conn.sawServerScid = false) := by
  obtain ⟨key, read, -⟩ := opens.opened
  exact and_iff_right ⟨opens.ours, space, key, read, opens.early⟩

/-- What is noted of a packet that opens, before its frames are looked at. -/
theorem Opens.noted {packet plaintext : Bytes} {header : Header} {space : Space} {pn : Nat}
    (opens : Opens codec conn packet header space pn plaintext) :
    (conn.learning header).numbering space pn = conn ∧
        (¬ conn.Learns header ∧ pn ≤ conn.largestRx.atSpace space) ∨
      conn.Ahead ((conn.learning header).numbering space pn) ∧
        ¬ (¬ conn.Learns header ∧ pn ≤ conn.largestRx.atSpace space) := by
  rcases @learning_cases _ _ conn header with ⟨same, ignorant⟩ | ⟨ahead, learns⟩
  · rw [same, opens.learns_iff]
    rcases @numbering_cases _ _ conn space pn with ⟨seen, small⟩ | ⟨further, large⟩
    · exact .inl ⟨seen, ignorant, small⟩
    · exact .inr ⟨further, fun both => absurd both.2 (by omega)⟩
  · refine .inr ⟨?_, fun both => both.1 (opens.learns_iff.mpr learns)⟩
    rcases @numbering_cases _ _ (conn.learning header) space pn with ⟨seen, -⟩ | ⟨further, -⟩
    · rwa [seen]
    · exact ahead.trans further

/-- A packet that is idle does nothing. -/
theorem Idle.processDatagram {packet : Bytes} (idle : Idle codec conn packet)
    (env : Env) (crypto : Crypto RootStore) (lawful : codec.Lawful)
    (lone : Lone codec conn packet) :
    QuicConnection.processDatagram codec env crypto packet conn = (.ok (), conn) := by
  obtain ⟨header, parsed, ignorant, empty⟩ := idle
  rcases processDatagram_lone env crypto lawful lone with
    ⟨error, refused, -⟩ | ⟨other, space, pn, plaintext, opens, ran⟩ | ⟨after, discards, ran⟩
  · cases parsed.symm.trans refused
  · obtain rfl := Except.ok.inj (parsed.symm.trans opens.parsed)
    obtain ⟨small, none⟩ := empty space pn plaintext opens
    rcases opens.noted with ⟨same, -⟩ | ⟨-, new⟩
    · rw [ran, same, processPlaintext_of_no_frames none]
    · exact absurd ⟨ignorant, small⟩ new
  · obtain rfl := (discards.eq_self_iff parsed).mpr ignorant
    exact ran

/-- A packet that is taken without an error is idle, or it brings the connection ahead. -/
theorem processDatagram_progress {env : Env} {crypto : Crypto RootStore} (lawful : codec.Lawful)
    {packet : Bytes} (lone : Lone codec conn packet) {after : QuicConnection PacketKey RootStore}
    (ran : processDatagram codec env crypto packet conn = (.ok (), after)) :
    after = conn ∧ Idle codec conn packet ∨ conn.Ahead after := by
  rcases processDatagram_lone env crypto lawful lone with
    ⟨error, -, failed⟩ | ⟨header, space, pn, plaintext, opens, taken⟩ | ⟨last, discards, discarded⟩
  · cases failed.symm.trans ran
  · by_cases none : decodeFrames codec plaintext.length plaintext = []
    · rw [processPlaintext_of_no_frames none] at taken
      obtain rfl := (Prod.mk.inj (taken.symm.trans ran)).2
      rcases opens.noted with ⟨same, ignorant, small⟩ | ⟨ahead, -⟩
      · refine .inl ⟨same, header, opens.parsed, ignorant, fun there other octets again => ?_⟩
        obtain ⟨-, rfl, rfl, rfl⟩ := opens.unique again
        exact ⟨small, none⟩
      · exact .inr ahead
    · obtain ⟨key, read, -⟩ := opens.opened
      obtain ⟨kept, keys⟩ := @learning_keeps _ _ conn header
      have marked := processPlaintext_notes (fun flight => by
        change (conn.learning header).hsRead.isSome = true
        rw [keys]
        exact Ledger.readKey_handshake read flight) none (taken.symm.trans ran)
      refine .inr (.inl ?_)
      rw [← kept]
      exact marked
  · obtain rfl := (Prod.mk.inj (discarded.symm.trans ran)).2
    obtain ⟨header, parsed, unopened, ⟨rfl, ignorant⟩ | ⟨rfl, learns⟩⟩ := discards
    · exact .inl ⟨rfl, header, parsed, ignorant,
        fun space pn plaintext opens => absurd opens (unopened space pn plaintext)⟩
    · rcases @learning_cases _ _ conn header with ⟨-, ignorant⟩ | ⟨ahead, -⟩
      · exact absurd learns.2 ignorant
      · exact .inr ahead

/-! ## Datagrams one after the other -/

section Lone

variable {packets : List Bytes}

theorem each_progress (lawful : codec.Lawful)
    (lone : ∀ packet ∈ packets, ∀ conn : QuicConnection PacketKey RootStore, Lone codec conn packet)
    {after : QuicConnection PacketKey RootStore}
    (ran : each (processDatagram codec env crypto) packets conn = (.ok (), after)) :
    after = conn ∧ (∀ packet ∈ packets, Idle codec conn packet) ∨ conn.Ahead after := by
  induction packets generalizing conn with
  | nil =>
      cases ran
      exact .inl ⟨rfl, fun packet member => absurd member List.not_mem_nil⟩
  | cons packet packets inductionHypothesis =>
      obtain ⟨_, middle, first, others⟩ := bind_eq_ok_iff.mp ran
      have later := inductionHypothesis (fun other member => lone other (.tail _ member)) others
      rcases processDatagram_progress lawful (lone packet (.head _) conn) first with
        ⟨rfl, idle⟩ | ahead
      · exact later.imp_left fun ⟨same, idles⟩ => ⟨same, List.forall_mem_cons.mpr ⟨idle, idles⟩⟩
      · rcases later with ⟨rfl, -⟩ | further
        · exact .inr ahead
        · exact .inr (ahead.trans further)

/-- Packets leave the connection as it is exactly when each of them is idle. -/
theorem each_idle_iff (lawful : codec.Lawful)
    (lone : ∀ packet ∈ packets, ∀ conn : QuicConnection PacketKey RootStore,
      Lone codec conn packet) :
    each (processDatagram codec env crypto) packets conn = (.ok (), conn) ↔
      ∀ packet ∈ packets, Idle codec conn packet := by
  constructor
  · intro ran
    rcases each_progress lawful lone ran with ⟨-, idle⟩ | ahead
    · exact idle
    · exact absurd ahead not_ahead_self
  · intro idle
    induction packets with
    | nil => rfl
    | cons packet packets inductionHypothesis =>
        rw [List.forall_mem_cons] at idle lone
        exact bind_eq_ok_iff.mpr ⟨(), conn, idle.1.processDatagram env crypto lawful (lone.1 conn),
          inductionHypothesis lone.2 idle.2⟩

theorem losesNothing_of_idle (lawful : codec.Lawful)
    (lone : ∀ packet ∈ packets, ∀ conn : QuicConnection PacketKey RootStore, Lone codec conn packet)
    (idle : ∀ packet ∈ packets, Idle codec conn packet) :
    LosesNothing codec env crypto conn packets := by
  rintro before packet rest reached after rfl ran discards later member
  rw [List.forall_mem_append, List.forall_mem_cons] at idle lone
  have stays : each (processDatagram codec env crypto) before conn = (.ok (), conn) :=
    (each_idle_iff lawful lone.1).mpr idle.1
  obtain rfl := (Prod.mk.inj (stays.symm.trans ran)).2
  obtain ⟨header, parsed, ignorant, -⟩ := idle.2.1
  obtain rfl := (discards.eq_self_iff parsed).mpr ignorant
  exact idle.2.2 later member

/-- The first packet, and those behind it. -/
theorem losesNothing_cons {packet : Bytes} :
    LosesNothing codec env crypto conn (packet :: packets) ↔
      (∀ after, Discards codec conn packet after → ∀ later ∈ packets, Idle codec after later) ∧
      ∀ after, processDatagram codec env crypto packet conn = (.ok (), after) →
        LosesNothing codec env crypto after packets := by
  constructor
  · intro keeps
    refine ⟨fun after => keeps [] packet packets conn after rfl rfl, ?_⟩
    rintro after first before later rest reached last rfl others
    exact keeps (packet :: before) later rest reached last rfl
      (bind_eq_ok_iff.mpr ⟨(), after, first, others⟩)
  · rintro ⟨here, further⟩ before later rest reached last split ran
    cases before with
    | nil =>
        cases split
        cases ran
        exact here last
    | cons head before =>
        cases split
        obtain ⟨_, middle, first, others⟩ := bind_eq_ok_iff.mp ran
        exact further middle first before later rest reached last rfl others

theorem losesNothing_nil : LosesNothing codec env crypto conn [] := by
  intro before packet rest reached after split
  simp at split

/-- There is nothing behind the last packet. -/
theorem losesNothing_singleton {packet : Bytes} :
    LosesNothing codec env crypto conn [packet] :=
  losesNothing_cons.mpr
    ⟨fun _ _ _ member => absurd member List.not_mem_nil, fun _ _ => losesNothing_nil⟩

end Lone

theorem Coalesced.lone (own : codec.Local) {packets : List Bytes}
    (coalesced : Coalesced codec packets) :
    ∀ packet ∈ packets, ∀ conn : QuicConnection PacketKey RootStore, Lone codec conn packet := by
  induction coalesced with
  | nil => exact fun packet member => absurd member List.not_mem_nil
  | short lone =>
      intro packet member conn
      rw [List.mem_singleton] at member
      exact member ▸ lone.whole
  | long wellFormed rest inductionHypothesis =>
      exact List.forall_mem_cons.mpr ⟨fun conn => wellFormed.lone own, inductionHypothesis⟩

/-! ## Datagrams of several packets -/

/-- The first packet of a datagram is discarded with all that follows it, or it opens,
is taken as if it came alone, and what follows is taken. -/
theorem processPackets_long (env : Env) (crypto : Crypto RootStore) (lawful : codec.Lawful)
    (own : codec.Local) {packet : Bytes} (wellFormed : LongPacket codec packet) (fuel : Nat)
    (rest : Bytes) :
    (∃ header space pn plaintext, Opens codec conn packet header space pn plaintext ∧
      processPackets codec env crypto (fuel + 1) (packet ++ rest) conn =
        (processDatagram codec env crypto packet >>= fun _ =>
          processPackets codec env crypto fuel rest) conn) ∨
    ∃ after, Discards codec conn packet after ∧
      processDatagram codec env crypto packet conn = (.ok (), after) ∧
      processPackets codec env crypto (fuel + 1) (packet ++ rest) conn = (.ok (), after) := by
  have lone : Lone codec conn packet := wellFormed.lone own
  obtain ⟨version, notRetry⟩ := wellFormed.ordinary rest
  have alone : processDatagram codec env crypto packet conn =
      (processPacket codec env crypto packet >>= fun _ => pure ()) conn :=
    processPackets_lone lawful lone (Nat.lt_succ_self _)
  rw [processPackets, if_neg (by simp [lone.some]), if_neg (by simp [version]),
    if_neg (by simp [notRetry])]
  have here := @processPacket_append _ _ codec env crypto conn lawful own packet wellFormed rest
  obtain ⟨header, parsed, whole, -⟩ := @LongPacket.header _ RootStore codec own packet wellFormed
  have reparsed := parsed conn []
  rw [List.append_nil] at reparsed
  rcases processPacket_cases env crypto lawful reparsed with
    ⟨space, pn, plaintext, opens, taken⟩ | ⟨after, discards, discarded⟩
  · refine .inl ⟨header, space, pn, plaintext, opens, ?_⟩
    have behind : restAt (packet ++ rest) header.payloadEnd = .ok rest := by
      rw [whole]
      exact restAt_eq_ok.mpr ⟨by simp, by simp⟩
    rw [bind_run_eq (here.trans taken), bind_run_eq (alone.trans (bind_run_eq taken)),
      bind_assoc_run, bind_assoc_run, bind_assoc_run]
    refine bind_congr_run fun _ after _ => ?_
    change (lift (restAt (packet ++ rest) header.payloadEnd) >>= fun left =>
      processPackets codec env crypto fuel left) after = processPackets codec env crypto fuel rest after
    rw [behind, lift_ok_bind_run]
  · refine .inr ⟨after, discards, alone.trans (bind_of_ok discarded), ?_⟩
    rw [bind_of_ok (here.trans discarded)]
    rfl

/-- A connection takes a datagram of several packets as it takes the packets in datagrams
of their own exactly when every packet it discards has only idle ones behind it. -/
theorem processDatagram_flatten_iff (env : Env) (crypto : Crypto RootStore) (lawful : codec.Lawful)
    (own : codec.Local) (conn : QuicConnection PacketKey RootStore) {packets : List Bytes}
    (coalesced : Coalesced codec packets) :
    processDatagram codec env crypto packets.flatten conn =
        each (processDatagram codec env crypto) packets conn ↔
      LosesNothing codec env crypto conn packets := by
  have enough : packets.flatten.length < packets.flatten.length + 1 := Nat.lt_succ_self _
  rw [processDatagram]
  revert enough
  generalize packets.flatten.length + 1 = fuel
  induction coalesced generalizing conn fuel with
  | nil =>
      intro enough
      obtain ⟨less, rfl⟩ := Nat.exists_eq_add_of_lt enough
      exact iff_of_true rfl losesNothing_nil
  | @short packet lone =>
      intro enough
      rw [List.flatten_singleton] at enough ⊢
      have alone : processDatagram codec env crypto packet conn = _ :=
        processPackets_lone lawful lone.whole (Nat.lt_succ_self _)
      refine iff_of_true ?_ losesNothing_singleton
      rw [processPackets_lone lawful lone.whole enough, ← alone]
      exact bind_pure_unit_run.symm
  | @long packet packets wellFormed coalesced inductionHypothesis =>
      intro enough
      have lone := @Coalesced.lone _ RootStore codec own packets coalesced
      have octets : 0 < packet.length :=
        List.length_pos_iff.mpr (wellFormed.lone own : Lone codec conn packet).some
      rw [List.flatten_cons, List.length_append] at enough
      rw [List.flatten_cons, losesNothing_cons]
      obtain ⟨less, rfl⟩ : ∃ less, fuel = less + 1 := ⟨fuel - 1, by omega⟩
      rcases @processPackets_long _ _ codec conn env crypto lawful own packet wellFormed less
          packets.flatten with
        ⟨header, space, pn, plaintext, opens, taken⟩ | ⟨after, discards, alone, taken⟩
      · have kept : ∀ after, ¬ Discards codec conn packet after := by
          rintro after ⟨other, reparsed, unopened, -⟩
          obtain rfl := Except.ok.inj (opens.parsed.symm.trans reparsed)
          exact unopened space pn plaintext opens
        rw [taken, each]
        cases ran : processDatagram codec env crypto packet conn with
        | mk outcome after =>
            cases outcome with
            | error error =>
                rw [bind_of_error ran, bind_of_error ran]
                refine iff_of_true rfl ⟨fun after discards => absurd discards (kept after), ?_⟩
                intro after went
                cases went
            | ok done =>
                rw [bind_of_ok ran, bind_of_ok ran]
                refine (inductionHypothesis after less (by omega)).trans ?_
                constructor
                · intro keeps
                  refine ⟨fun after discards => absurd discards (kept after), ?_⟩
                  intro last went
                  obtain rfl := (Prod.mk.inj went).2
                  exact keeps
                · exact fun keeps => keeps.2 after rfl
      · rw [taken, each, bind_of_ok alone, eq_comm, each_idle_iff lawful lone]
        constructor
        · intro idle
          refine ⟨fun last again => ?_, fun last went => ?_⟩
          · obtain rfl : last = after := Discards.unique again discards
            exact idle
          · obtain rfl := (Prod.mk.inj (alone.symm.trans went)).2
            exact losesNothing_of_idle lawful lone idle
        · exact fun keeps => keeps.1 after discards

/-! ## Sample datagrams -/

theorem plain_local : Plain.codec.Local where
  varint := by
    intro bytes more result decoded
    cases bytes with
    | nil => cases decoded
    | cons first rest =>
        change (if _ then _ else _) = _ at decoded
        change (if _ then _ else _) = _
        split_ifs at decoded with short
        have long : 2 ^ (first.toNat / 64) ≤ (first :: rest).length := Nat.not_lt.mp short
        rw [if_neg (by rw [List.length_append]; omega), List.take_append_of_le_length long]
        exact decoded
  unprotect := by
    intro key packet more pnOffset isLong sample
    cases packet with
    | nil => simp at sample
    | cons first rest =>
        change (if _ then _ else _) = Option.map _ (if _ then _ else _)
        rw [if_neg (by rw [List.length_append]; omega), if_neg (by omega)]
        rfl

/-- A Handshake packet of the server. -/
def early : Bytes := Plain.longPacket .handshake [1] [9] 0 [7] [.ping]

/-- The rest of the server's first flight. -/
def encrypted : Bytes := Plain.flight [4, 1, 32, 6, 1, 32] 192 224

set_option maxRecDepth 4096 in
/-- The packets are well formed. -/
theorem packets_wellFormed : LongPacket Plain.codec Plain.serverHello ∧
    LongPacket Plain.codec early ∧ LongPacket Plain.codec encrypted := by
  refine ⟨⟨0xc3, ⟨true, some .initial, [1], [9], [], 12, 126⟩, ?_⟩,
    ⟨0xe3, ⟨true, some .handshake, [1], [9], [], 10, 31⟩, ?_⟩,
    ⟨0xe3, ⟨true, some .handshake, [1], [9], [], 11, 204⟩, ?_⟩⟩ <;> decide

theorem serverHello_wellFormed : LongPacket Plain.codec Plain.serverHello := packets_wellFormed.1

theorem early_wellFormed : LongPacket Plain.codec early := packets_wellFormed.2.1

theorem encrypted_wellFormed : LongPacket Plain.codec encrypted := packets_wellFormed.2.2

set_option maxRecDepth 8192 in
/-- The client opens the ServerHello. -/
theorem serverHello_opens :
    Opens Plain.codec Plain.started Plain.serverHello ⟨true, some .initial, [1], [9], [], 12, 126⟩
      .initial 0 (Plain.encodeFrame (.crypto 0 Sample.serverHello)) where
  parsed := by decide
  ours := .inr (by decide)
  early _ := by decide
  opened := ⟨[1, 2], by decide, by decide⟩

/-- The first flight of a server in one datagram is taken as in two. -/
theorem flight_in_one_datagram :
    processDatagram Plain.codec Plain.env Sample.crypto [Plain.serverHello, encrypted].flatten
        Plain.started =
      each (processDatagram Plain.codec Plain.env Sample.crypto) [Plain.serverHello, encrypted]
        Plain.started := by
  refine (processDatagram_flatten_iff Plain.env Sample.crypto Plain.codec_lawful plain_local
    Plain.started (.long serverHello_wellFormed (.long encrypted_wellFormed .nil))).mpr ?_
  refine losesNothing_cons.mpr ⟨fun after discards => ?_, fun _ _ => losesNothing_singleton⟩
  obtain ⟨header, parsed, unopened, -⟩ := discards
  have opens := serverHello_opens
  obtain rfl := Except.ok.inj (opens.parsed.symm.trans parsed)
  exact absurd opens (unopened _ _ _)

/-- A Handshake packet that is early takes the ServerHello behind it with it, which in a
datagram of its own gives the client its keys. -/
theorem early_packet_hides_serverHello :
    Coalesced Plain.codec [early, Plain.serverHello] ∧
    (∃ after, processDatagram Plain.codec Plain.env Sample.crypto
        [early, Plain.serverHello].flatten Plain.started = (.ok (), after) ∧
      after.hsRead.isSome = false) ∧
    (∃ after, each (processDatagram Plain.codec Plain.env Sample.crypto)
        [early, Plain.serverHello] Plain.started = (.ok (), after) ∧
      after.hsRead.isSome = true) ∧
    processDatagram Plain.codec Plain.env Sample.crypto [early, Plain.serverHello].flatten
        Plain.started ≠
      each (processDatagram Plain.codec Plain.env Sample.crypto) [early, Plain.serverHello]
        Plain.started := by
  have keyless : (processDatagram Plain.codec Plain.env Sample.crypto
      [early, Plain.serverHello].flatten Plain.started).2.hsRead.isSome = false := by decide +kernel
  have keyed : (each (processDatagram Plain.codec Plain.env Sample.crypto)
      [early, Plain.serverHello] Plain.started).2.hsRead.isSome = true := by decide +kernel
  refine ⟨.long early_wellFormed (.long serverHello_wellFormed .nil),
    ⟨_, run_eq (by decide +kernel), keyless⟩, ⟨_, run_eq (by decide +kernel), keyed⟩, ?_⟩
  intro same
  rw [same, keyed] at keyless
  cases keyless

end QuicConnection

end RecurseX.Doq
