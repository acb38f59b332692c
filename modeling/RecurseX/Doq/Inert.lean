import RecurseX.Doq.Reassembly

/-!
# Datagrams that do not open

What a datagram does to the connection when its first packet fails to open:
everything before the opening works on octets anyone can send.
-/

namespace RecurseX.Doq

open Library Wire Stateful

namespace QuicConnection

variable {PacketKey RootStore : Type} {codec : Codec PacketKey} {env : Env}
variable {conn : QuicConnection PacketKey RootStore}

/-- The first packet of the datagram does not open. -/
def Unopened (codec : Codec PacketKey) (conn : QuicConnection PacketKey RootStore) (dg : Bytes) :
    Prop :=
  ∀ header space key opened, conn.parseHeader codec dg = .ok header →
    conn.readKey header = some (space, key) →
      conn.openPacket codec header space key dg ≠ .ok (some opened)

/-- The header is one whose packet the connection tries to open. -/
def Tried (conn : QuicConnection PacketKey RootStore) (header : Header) : Prop :=
  (header.dcid = [] ∨ header.dcid = conn.localCid) ∧
    ∃ space key, conn.readKey header = some (space, key) ∧
      (space = .initial → conn.handshakeConfirmed = false)

/-- The connection takes the server's identifier from the header. -/
def Learns (conn : QuicConnection PacketKey RootStore) (header : Header) : Prop :=
  conn.Tried header ∧ header.isLong = true ∧ header.scid ≠ [] ∧ conn.sawServerScid = false

/-- The connection after it took the server's identifier from a header, if it did. -/
def learning (conn : QuicConnection PacketKey RootStore) (header : Header) :
    QuicConnection PacketKey RootStore :=
  if header.isLong = true ∧ header.scid ≠ [] ∧ conn.sawServerScid = false then
    { conn with serverCid := header.scid, sawServerScid := true }
  else conn

/-- The packet is for the connection, which has its key and opens it. -/
structure Opens (codec : Codec PacketKey) (conn : QuicConnection PacketKey RootStore)
    (packet : Bytes) (header : Header) (space : Space) (pn : Nat) (plaintext : Bytes) : Prop where
  parsed : conn.parseHeader codec packet = .ok header
  ours : header.dcid = [] ∨ header.dcid = conn.localCid
  early : space = .initial → conn.handshakeConfirmed = false
  opened : ∃ key, conn.readKey header = some (space, key) ∧
    conn.openPacket codec header space key packet = .ok (some (pn, plaintext))

/-- The packet parses and is not opened. The connection after it has its server's
identifier from the packet, if it was that far with it. -/
def Discards (codec : Codec PacketKey) (conn : QuicConnection PacketKey RootStore)
    (packet : Bytes) (after : QuicConnection PacketKey RootStore) : Prop :=
  ∃ header, conn.parseHeader codec packet = .ok header ∧
    (∀ space pn plaintext, ¬ Opens codec conn packet header space pn plaintext) ∧
    (after = conn ∧ ¬ conn.Learns header ∨ after = conn.learning header ∧ conn.Learns header)

/-- The Retry is for another connection, or it is the first one, in time, and forged. -/
def RetryDropped (codec : Codec PacketKey) (conn : QuicConnection PacketKey RootStore)
    (retry : RetryPacket) : Prop :=
  retry.dcid ≠ conn.localCid ∨
    conn.retryScid = none ∧ conn.handshakeConfirmed = false ∧ conn.sawServerScid = false ∧
      codec.verifyRetryIntegrity conn.originalDcid retry.wire retry.tag = .ok false

/-- The datagram is empty; or it is no version negotiation, a Retry in it is well
formed and dropped, and any other header in it is well formed and tells nothing new. -/
def Inert (codec : Codec PacketKey) (conn : QuicConnection PacketKey RootStore) (dg : Bytes) :
    Prop :=
  dg = [] ∨
    longVersion dg 0 = false ∧
      (isRetry dg = true → ∃ retry, parseRetry dg = .ok retry ∧ conn.RetryDropped codec retry) ∧
      (isRetry dg = false → ∃ header, conn.parseHeader codec dg = .ok header ∧
        ¬ conn.Learns header)

/-! ## Headers -/

theorem parseLongHeader_payloadEnd {first : UInt8} {dg : Bytes} {header : Header}
    (parsed : parseLongHeader codec first dg = .ok header) : header.payloadEnd ≤ dg.length := by
  unfold parseLongHeader at parsed
  simp only [bind_eq_ok] at parsed
  obtain ⟨_, -, _, -, _, -, _, -, _, -, _, -, _, -, _, -, _, -, _, -, _, -, _, -, _, -, _, -, _,
    fits, done⟩ := parsed
  cases done
  exact Nat.not_lt.mp (failIf_eq_ok.mp fits)

theorem parseHeader_payloadEnd {dg : Bytes} {header : Header}
    (parsed : conn.parseHeader codec dg = .ok header) : header.payloadEnd ≤ dg.length := by
  unfold parseHeader at parsed
  obtain ⟨first, -, parsed⟩ := bind_eq_ok.mp parsed
  split_ifs at parsed
  · exact parseLongHeader_payloadEnd parsed
  · unfold parseShortHeader at parsed
    simp only [bind_eq_ok] at parsed
    obtain ⟨_, -, _, -, done⟩ := parsed
    cases done
    exact le_rfl

/-- A packet whose protection comes off has all the octets that are read of it. -/
theorem openPacket_total (lawful : codec.Lawful) {dg : Bytes} {header : Header}
    (parsed : conn.parseHeader codec dg = .ok header) (space : Space) (key : PacketKey) :
    ∃ opened, conn.openPacket codec header space key dg = .ok opened := by
  have bound := parseHeader_payloadEnd parsed
  unfold openPacket
  cases unprotected : codec.unprotectHeader key dg header.pnOffset header.isLong with
  | none => exact ⟨none, rfl⟩
  | some both =>
      obtain ⟨pnLen, packet⟩ := both
      obtain ⟨same, sample⟩ := lawful.unprotected unprotected
      dsimp only
      split_ifs with length
      · exact ⟨none, rfl⟩
      · rw [sliceAt, if_pos (by omega), ok_bind]
        exact ⟨none, rfl⟩
      · rw [sliceAt, if_pos (by omega), ok_bind, sliceAt, if_pos (by omega), ok_bind, sliceAt,
          if_pos (by omega), ok_bind]
        exact ⟨_, rfl⟩

/-! ## One packet -/

theorem learnScid_run (header : Header) :
    learnScid header conn = (.ok (), conn.learning header) := by
  unfold learnScid learning
  rw [read_bind_run]
  split_ifs
  · rfl
  · rfl

/-- The connection that takes note of a packet number. -/
def numbering (conn : QuicConnection PacketKey RootStore) (space : Space) (pn : Nat) :
    QuicConnection PacketKey RootStore :=
  { conn with
    largestRx := conn.largestRx.set space (max (conn.largestRx.atSpace space) pn) }

/-- A packet whose header parses is opened and its frames are taken, or it is discarded. -/
theorem processPacket_cases (env : Env) (crypto : Crypto RootStore) (lawful : codec.Lawful) {packet : Bytes} {header : Header}
    (parsed : conn.parseHeader codec packet = .ok header) :
    (∃ space pn plaintext, Opens codec conn packet header space pn plaintext ∧
      processPacket codec env crypto packet conn =
        (processPlaintext codec env crypto space pn plaintext >>= fun _ =>
          pure (some header.payloadEnd)) ((conn.learning header).numbering space pn)) ∨
    ∃ after, Discards codec conn packet after ∧
      processPacket codec env crypto packet conn = (.ok none, after) := by
  unfold processPacket
  rw [read_bind_run, parsed, lift_ok_bind_run]
  split_ifs with foreign
  · refine .inr ⟨conn, ⟨header, parsed, fun space pn plaintext opens => ?_, .inl ⟨rfl, ?_⟩⟩, rfl⟩
    · have ours := opens.ours
      simp [foreign] at ours
    · simp [Learns, Tried, foreign]
  have ours : header.dcid = [] ∨ header.dcid = conn.localCid := by
    simpa [or_iff_not_imp_left] using foreign
  cases keyed : conn.readKey header with
  | none =>
      refine .inr ⟨conn, ⟨header, parsed, fun space pn plaintext opens => ?_, .inl ⟨rfl, ?_⟩⟩, rfl⟩
      · obtain ⟨key, read, -⟩ := opens.opened
        cases keyed.symm.trans read
      · simp [Learns, Tried, keyed]
  | some both =>
      obtain ⟨space, key⟩ := both
      dsimp only
      split_ifs with late
      · refine .inr ⟨conn, ⟨header, parsed, fun other pn plaintext opens => ?_, .inl ⟨rfl, ?_⟩⟩,
          rfl⟩
        · obtain ⟨_, read, -⟩ := opens.opened
          cases keyed.symm.trans read
          cases late.2.symm.trans (opens.early late.1)
        · simp [Learns, Tried, keyed, late]
      have early : space = .initial → conn.handshakeConfirmed = false := fun initial => by
        simpa [initial] using late
      have learns : conn.Learns header ↔
          header.isLong = true ∧ header.scid ≠ [] ∧ conn.sawServerScid = false :=
        and_iff_right ⟨ours, space, key, keyed, early⟩
      obtain ⟨opened, total⟩ := openPacket_total lawful parsed space key
      rw [bind_of_ok (learnScid_run header), total, lift_ok_bind_run]
      cases opened with
      | some both =>
          obtain ⟨pn, plaintext⟩ := both
          exact .inl ⟨space, pn, plaintext, ⟨parsed, ours, early, key, keyed, total⟩, rfl⟩
      | none =>
          refine .inr ⟨conn.learning header,
            ⟨header, parsed, fun there pn plaintext opens => ?_, ?_⟩, rfl⟩
          · obtain ⟨_, read, opened⟩ := opens.opened
            obtain ⟨rfl, rfl⟩ := Prod.mk.inj (Option.some.inj (keyed.symm.trans read))
            cases total.symm.trans opened
          · by_cases learned : conn.Learns header
            · exact .inr ⟨rfl, learned⟩
            · exact .inl ⟨if_neg (mt learns.mpr learned), learned⟩

/-- A packet opens in one way. -/
theorem Opens.unique {dg plaintext octets : Bytes} {header other : Header} {space there : Space}
    {pn number : Nat} (opens : Opens codec conn dg header space pn plaintext)
    (again : Opens codec conn dg other there number octets) :
    header = other ∧ space = there ∧ pn = number ∧ plaintext = octets := by
  obtain rfl := Except.ok.inj (opens.parsed.symm.trans again.parsed)
  obtain ⟨key, read, opened⟩ := opens.opened
  obtain ⟨_, reread, reopened⟩ := again.opened
  obtain ⟨rfl, rfl⟩ := Prod.mk.inj (Option.some.inj (read.symm.trans reread))
  cases opened.symm.trans reopened
  exact ⟨rfl, rfl, rfl, rfl⟩

theorem Discards.unique {packet : Bytes} {first second : QuicConnection PacketKey RootStore}
    (one : Discards codec conn packet first) (other : Discards codec conn packet second) :
    first = second := by
  obtain ⟨header, parsed, -, outcome⟩ := one
  obtain ⟨again, reparsed, -, result⟩ := other
  obtain rfl := Except.ok.inj (parsed.symm.trans reparsed)
  rcases outcome with ⟨rfl, ignorant⟩ | ⟨rfl, learns⟩ <;>
    rcases result with ⟨rfl, unlearnt⟩ | ⟨rfl, learnt⟩
  · rfl
  · exact absurd learnt ignorant
  · exact absurd learns unlearnt
  · rfl

/-- A discarded packet changes nothing but the server's identifier. -/
theorem Discards.eq_self_iff {dg : Bytes} {header : Header}
    {after : QuicConnection PacketKey RootStore} (discards : Discards codec conn dg after)
    (parsed : conn.parseHeader codec dg = .ok header) : after = conn ↔ ¬ conn.Learns header := by
  obtain ⟨other, reparsed, -, outcome⟩ := discards
  obtain rfl := Except.ok.inj (parsed.symm.trans reparsed)
  rcases outcome with ⟨rfl, ignorant⟩ | ⟨rfl, learns⟩
  · exact iff_of_true rfl ignorant
  · refine iff_of_false (fun same => ?_) (not_not.mpr learns)
    have saw := congrArg sawServerScid same
    simp [learning, learns.2] at saw

/-- A packet that does not open is discarded. -/
theorem processPacket_unopened (env : Env) (crypto : Crypto RootStore) (lawful : codec.Lawful)
    {dg : Bytes} {header : Header}
    (unopened : conn.Unopened codec dg) (parsed : conn.parseHeader codec dg = .ok header) :
    ∃ after, processPacket codec env crypto dg conn = (.ok none, after) ∧
      (after = conn ↔ ¬ conn.Learns header) := by
  rcases processPacket_cases env crypto lawful parsed with
    ⟨space, pn, plaintext, opens, -⟩ | ⟨after, discards, ran⟩
  · obtain ⟨key, keyed, opened⟩ := opens.opened
    exact absurd opened (unopened header space key _ parsed keyed)
  · exact ⟨after, ran, discards.eq_self_iff parsed⟩

/-! ## Retry -/

/-- A Retry that is applied leaves its mark. -/
theorem applyRetry_retryScid {retry : RetryPacket} {after : QuicConnection PacketKey RootStore}
    {outcome : Except Error Unit} (ran : applyRetry codec env retry conn = (outcome, after)) :
    after.retryScid = some retry.scid := by
  unfold applyRetry at ran
  rw [read_bind_run, update_bind_run] at ran
  change retryScid after = retryScid { conn with
    serverCid := retry.scid, retryScid := some retry.scid, retryToken := retry.token }
  refine Moves.keeps ?_ ran
  have rules := keeps_sequential (@retryScid PacketKey RootStore)
  have unsent : Unsent (@retryScid PacketKey RootStore) := ⟨fun _ _ _ => rfl, fun _ _ _ _ _ => rfl⟩
  refine rules.lift_bind fun write _ => rules.update_bind rfl (rules.lift_bind fun read _ => ?_)
  refine rules.update_bind rfl (rules.bind ?_ fun hello _ _ _ => ?_)
  · exact Sequential.read_bind (rules.update_bind rfl rules.pure)
  · exact rules.bind (sendPacket_keeps unsent) fun _ _ _ _ => Sequential.update rfl

/-- What a Retry packet does, when it is well formed. -/
theorem processRetry_iff {dg : Bytes} {retry : RetryPacket} (parsed : parseRetry dg = .ok retry) :
    processRetry codec env dg conn = (.ok (), conn) ↔ conn.RetryDropped codec retry := by
  unfold processRetry RetryDropped
  rw [parsed, lift_ok_bind_run, read_bind_run]
  split_ifs with foreign late
  · simp [foreign]
  · simp only [Bool.or_eq_true, Option.isSome_iff_ne_none] at late
    constructor
    · intro ran
      cases ran
    · rintro (other | ⟨first, early, unseen, -⟩)
      · exact absurd other foreign
      · rcases late with (again | confirmed) | saw
        · exact absurd first again
        · cases early.symm.trans confirmed
        · cases unseen.symm.trans saw
  · simp only [Bool.or_eq_true, not_or, Bool.not_eq_true] at late
    obtain ⟨⟨untried, early⟩, unseen⟩ := late
    have first : conn.retryScid = none := by simpa using untried
    cases checked : codec.verifyRetryIntegrity conn.originalDcid retry.wire retry.tag with
    | error error => simp [foreign, Except.mapError]
    | ok ok =>
        rw [mapError_ok, lift_ok_bind_run]
        cases ok with
        | false => simp [first, early, unseen]
        | true =>
            constructor
            · intro ran
              have marked := applyRetry_retryScid ran
              rw [first] at marked
              cases marked
            · rintro (other | ⟨-, -, -, forged⟩)
              · exact absurd other foreign
              · cases forged

/-! ## Datagrams -/

/-- A datagram whose first packet does not open leaves the connection as it is, and
is no error, exactly when it is inert. -/
theorem processDatagram_unopened_iff (codec : Codec PacketKey) (env : Env)
    (crypto : Crypto RootStore) (lawful : codec.Lawful)
    (conn : QuicConnection PacketKey RootStore) (dg : Bytes) (unopened : conn.Unopened codec dg) :
    processDatagram codec env crypto dg conn = (.ok (), conn) ↔ conn.Inert codec dg := by
  unfold processDatagram processPackets Inert
  split_ifs with empty negotiation retry
  · simp [List.isEmpty_iff.mp empty]
  · refine iff_of_false (fun ran => by cases ran) ?_
    rintro (rfl | ⟨other, -⟩)
    · exact empty rfl
    · cases other.symm.trans negotiation
  · have version : longVersion dg 0 = false := by simpa using negotiation
    have some : dg ≠ [] := by simpa using empty
    cases parsed : parseRetry dg with
    | error error => simp [processRetry, parsed, some, version, retry]
    | ok packet =>
        rw [processRetry_iff parsed]
        simp [some, version, retry]
  · have version : longVersion dg 0 = false := by simpa using negotiation
    have some : dg ≠ [] := by simpa using empty
    have other : isRetry dg = false := by simpa using retry
    cases parsed : conn.parseHeader codec dg with
    | error error =>
        have ran : processPacket codec env crypto dg conn = (.error error, conn) := by
          unfold processPacket
          rw [read_bind_run, parsed]
          rfl
        rw [bind_of_error ran]
        simp [some, version, other]
    | ok header =>
        obtain ⟨after, ran, same⟩ := processPacket_unopened env crypto lawful unopened parsed
        rw [bind_of_ok ran]
        simp [some, version, other, same]

/-- The connection after a first packet of the server opened. -/
def greeted : QuicConnection Bytes Bytes :=
  (processDatagram Plain.codec Plain.env Sample.crypto
    (Plain.longPacket .initial [1] [9] 0 [1, 2] [.ping]) Plain.connection).2

/-- A packet that is sealed with another key does nothing. -/
theorem forged_packet_inert :
    processDatagram Plain.codec Plain.env Sample.crypto
      (Plain.longPacket .initial [1] [7] 1 [] [.ping]) greeted = (.ok (), greeted) := by
  have parsed : greeted.parseHeader Plain.codec (Plain.longPacket .initial [1] [7] 1 [] [.ping]) =
      .ok ⟨true, some .initial, [1], [7], [], 11, 32⟩ := by decide
  refine (processDatagram_unopened_iff Plain.codec Plain.env Sample.crypto Plain.codec_lawful greeted
    _ ?_).mpr (.inr ⟨by decide, fun retry => absurd retry (by decide), fun _ =>
      ⟨_, parsed, fun learns => absurd learns.2.2.2 (by decide)⟩⟩)
  intro header space key opened reparsed keyed
  obtain rfl := Except.ok.inj (parsed.symm.trans reparsed)
  have read : greeted.readKey ⟨true, some .initial, [1], [7], [], 11, 32⟩ =
      some (.initial, [1, 2]) := by decide
  obtain ⟨rfl, rfl⟩ := Prod.mk.inj (Option.some.inj (read.symm.trans keyed))
  have unopened : greeted.openPacket Plain.codec ⟨true, some .initial, [1], [7], [], 11, 32⟩
      .initial [1, 2] (Plain.longPacket .initial [1] [7] 1 [] [.ping]) = .ok none := by
    decide
  simp [unopened]

/-- A Retry to the connection, with a tag that is not the server's. -/
def forgedRetry : Bytes := [0xf0, 0, 0, 0, 1, 1, 1, 1, 7] ++ List.replicate TAG_LEN 0

/-- One forged Retry closes the connection of a server that was heard already. -/
theorem forged_retry_closes :
    processDatagram Plain.codec Plain.env Sample.crypto
      (Plain.longPacket .initial [1] [9] 0 [1, 2] [.ping]) Plain.connection = (.ok (), greeted) ∧
    greeted.serverCid = [9] ∧
    (∃ retry, parseRetry forgedRetry = .ok retry ∧
      Plain.codec.verifyRetryIntegrity greeted.originalDcid retry.wire retry.tag = .ok false) ∧
    greeted.Unopened Plain.codec forgedRetry ∧
    ∃ after, processDatagram Plain.codec Plain.env Sample.crypto forgedRetry greeted =
        (.error (.wire "doq unexpected Retry"), after) ∧
      after.closed = some (.wire "doq unexpected Retry") ∧ greeted.closed = none := by
  refine ⟨run_eq (by decide), by decide,
    ⟨⟨[1], [7], [], forgedRetry.take 9, forgedRetry.drop 9⟩, by decide, by decide⟩,
    ?_, _, run_eq (by decide), by decide, by decide⟩
  intro header space key opened parsed
  have refused : greeted.parseHeader Plain.codec forgedRetry =
      .error (.wire "doq payload shorter than packet number") := by decide
  cases refused.symm.trans parsed

end QuicConnection

end RecurseX.Doq
